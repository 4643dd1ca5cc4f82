import GimpleLowering.Lowering.Function
import GimpleLowering.Proofs.Flo.Locations
import GimpleLowering.Proofs.Flo.Paths
import GimpleLowering.Proofs.Gimple.Occurrence
import GimpleLowering.Proofs.Lowering.Scope

/-!
# Runs

What a run does to the draft is made of a few steps, and it is followed through the code once, for
any relation between drafts that admits these steps. All runs are followed, also those that fail
half way; with the draft goes the registry, whose types evolve in every run.

There are three kinds of relations. The ones that hold most often allow each step by itself. A
variable without a name need not be such a step: nothing can fail between it and the statement that
writes it, so a relation only has to admit the two together. What is added for a statement has the
location of its line, so a relation only has to admit it there. And only branches add arms, so what
is said of other statements does not depend on them.

## Main definitions

* `Lowering.State.Moves` — the types evolve, and the draft moves in a relation
* `Lowering.Flo.Draft.Schedules` — relations that allow what is done to blocks
* `Lowering.Flo.Draft.Allows` — relations that allow each step
* `Lowering.Flo.Draft.Admits`, `AdmitsBlocks` — relations that admit all statements on a line, and
  branches as well

## Main results

* `Lowering.lowerPending_keeps`, `prepare_keeps` — what holds of the steps holds of functions
-/

namespace GimpleLowering.Lowering

open Gimple Layout

/-! ### The relation -/

/-- The types evolve, and the draft changes by steps in the relation `F`. -/
structure State.Moves (x : UnitIndex) (S : Ty → Prop) (F : Flo.Draft → Flo.Draft → Prop)
    (s s' : State) : Prop where
  types : Layout.Evolves x S [] s.types s'.types
  frame : F s.draft s'.draft

/-- The relation allows what is done to blocks, which is done without regard to their statements. -/
class Flo.Draft.Schedules (F : Flo.Draft → Flo.Draft → Prop) : Prop extends
    Std.Refl F, IsTrans Flo.Draft F where
  addBlock : ∀ d b, F d (d.addBlock b).2
  reserveBlock : ∀ d, F d d.reserveBlock.2
  fillBlock : ∀ d id b, F d (d.fillBlock id b)

/-- The relation allows every step on a draft but the addition of an arm, which only branches
need. -/
class Flo.Draft.Allows (F : Flo.Draft → Flo.Draft → Prop) : Prop extends
    Flo.Draft.Schedules F where
  locate : ∀ d line, F d (d.locate line).2
  addVariable : ∀ d typ linkage label location,
    F d (d.addVariable typ linkage label location).2
  addStatement : ∀ d stmt, F d (d.addStatement stmt).2

/-- The second draft has the variables `vs` more, which are on the line, have no names and are not
written yet. -/
inductive Flo.Draft.Readies (line : Option Nat) (d : Flo.Draft) :
    List Nat → Flo.Draft → Prop where
  | refl : Readies line d [] d
  | addVariable {vs : List Nat} {d' : Flo.Draft} (h : Readies line d vs d') (typ : Flo.Ty) :
      Readies line d
        (vs ++ [((d'.locate line).2.addVariable typ .frame none (d'.locate line).1).1])
        ((d'.locate line).2.addVariable typ .frame none (d'.locate line).1).2

/-- The relation admits the steps of a statement on the line, other than a branch. Variables without
names are added together with a statement that writes them. -/
class Flo.Draft.Admits (line : Option Nat) (F : Flo.Draft → Flo.Draft → Prop) : Prop where
  addNamed : ∀ d typ linkage name,
    F d ((d.locate line).2.addVariable typ linkage (some name) (d.locate line).1).2
  addStatement : ∀ {d vs d'}, Flo.Draft.Readies line d vs d' → ∀ {stmt : Flo.Statement} {note},
    stmt.note? = some note → note.location = (d'.locate line).1 → (∀ v ∈ vs, v ∈ stmt.outputs) →
      F d ((d'.locate line).2.addStatement stmt).2

/-- The relation admits the steps of branches on the line as well. -/
class Flo.Draft.AdmitsBlocks (line : Option Nat) (F : Flo.Draft → Flo.Draft → Prop) : Prop extends
    Flo.Draft.Admits line F where
  addMatchArm : ∀ d condition target,
    F d ((d.locate line).2.addMatchArm condition target (d.locate line).1).2

variable {x : UnitIndex} {S : Ty → Prop} {F : Flo.Draft → Flo.Draft → Prop}
  {line : Option Nat}

theorem Flo.Draft.Allows.of_readies [Flo.Draft.Allows F] {d d' : Flo.Draft} {vs : List Nat}
    (h : Flo.Draft.Readies line d vs d') : F d d' := by
  induction h with
  | refl => exact refl_of F d
  | addVariable h typ ih =>
    exact trans_of F (trans_of F ih (Flo.Draft.Allows.locate _ line))
      (Flo.Draft.Allows.addVariable _ _ _ _ _)

instance [Flo.Draft.Allows F] : Flo.Draft.Admits line F where
  addNamed d _ _ _ :=
    trans_of F (Flo.Draft.Allows.locate d line) (Flo.Draft.Allows.addVariable _ _ _ _ _)
  addStatement h _ _ _ _ _ :=
    trans_of F (trans_of F (Flo.Draft.Allows.of_readies h) (Flo.Draft.Allows.locate _ line))
      (Flo.Draft.Allows.addStatement _ _)

section

variable [Flo.Draft.Schedules F]

instance : Std.Refl (State.Moves x S F) :=
  ⟨fun s => ⟨refl_of (Layout.Evolves x S []) s.types, refl_of F s.draft⟩⟩

instance : IsTrans State (State.Moves x S F) :=
  ⟨fun _ _ _ h h' => ⟨trans_of (Layout.Evolves x S []) h.types h'.types,
    trans_of F h.frame h'.frame⟩⟩

/-! ### Steps -/

section

variable {α : Type}

theorem onTypes_keeps {m : LayoutM α} (hm : m.Keeps (Layout.Evolves x S [])) :
    (onTypes m).Keeps (State.Moves x S F) :=
  hm.zoom fun s _ ht => ⟨ht, refl_of F s.draft⟩

omit [Flo.Draft.Schedules F] in
theorem onDraft_keeps {f : Flo.Draft → α × Flo.Draft} (hf : ∀ d, F d (f d).2) :
    (onDraft f).Keeps (State.Moves x S F) :=
  .step fun s => ⟨refl_of (Layout.Evolves x S []) s.types, hf s.draft⟩

/-- A step that touches neither the types nor the draft. -/
theorem step_keeps {ε : Type} {f : State → α × State} (ht : ∀ s, (f s).2.types = s.types)
    (hd : ∀ s, (f s).2.draft = s.draft) :
    (Build.step f : Build State ε α).Keeps (State.Moves x S F) := by
  refine .step fun s => ⟨?_, ?_⟩
  · rw [ht]
    exact refl_of (Layout.Evolves x S []) s.types
  · rw [hd]
    exact refl_of F s.draft

theorem check_keeps (r : Except Error α) : (check r).Keeps (State.Moves x S F) := .ofExcept r

end

theorem markPanic_keeps : markPanic.Keeps (State.Moves x S F) :=
  step_keeps (fun _ => rfl) fun _ => rfl

section

variable {cx : Context}

theorem valueType_keeps (hx : cx.index.Closed S) {ty : Ty} (hS : S ty) :
    (valueType cx ty).Keeps (State.Moves cx.index S F) :=
  onTypes_keeps (Layout.valueType_keeps hx hS)

/-! ### Labels -/

theorem exitBlock_keeps : (exitBlock cx).Keeps (State.Moves x S F) := by
  refine Build.Keeps.get.bind fun s => ?_
  cases s.exitBlock with
  | some id => exact .pure id
  | none =>
    refine (onDraft_keeps fun d => Flo.Draft.Schedules.addBlock d _).bind fun id => ?_
    exact (step_keeps (fun _ => rfl) fun _ => rfl).bind fun _ => .pure _

theorem blockFor_keeps (label : Nat) : (blockFor cx label).Keeps (State.Moves x S F) := by
  unfold blockFor
  split
  · exact exitBlock_keeps
  refine Build.Keeps.get.bind fun s => ?_
  cases s.blocks.lookup label with
  | some id => exact .pure id
  | none =>
    simp only
    split
    · exact .throw _
    · refine (onDraft_keeps fun d => Flo.Draft.Schedules.reserveBlock d).bind fun id => ?_
      exact (step_keeps (fun _ => rfl) fun _ => rfl).bind fun _ => .pure _

end

variable (cx : Context)

omit [Flo.Draft.Schedules F] in
theorem location_keeps [Flo.Draft.Allows F] : (location cx).Keeps (State.Moves x S F) :=
  onDraft_keeps fun d => Flo.Draft.Allows.locate d cx.line

/-! ### Temporaries -/

/-- The types evolve, and the draft changes by a step in the relation `F` from before the variables
`vs` without names were added on the line. -/
structure State.Settles (line : Option Nat) (x : UnitIndex) (S : Ty → Prop)
    (F : Flo.Draft → Flo.Draft → Prop) (vs : List Nat) (s s' : State) : Prop where
  types : Layout.Evolves x S [] s.types s'.types
  frame : ∀ {d : Flo.Draft}, Flo.Draft.Readies line d vs s.draft → F d s'.draft

/-- The computation adds variables without names on the line and does not fail. -/
def Readying (line : Option Nat) {α : Type} (m : LowerM α) (vs : α → List Nat) : Prop :=
  ∀ s r s', m.runOn s = .ok (r, s') → ∃ a, r = .ok a ∧ s'.types = s.types ∧
    ∀ {d : Flo.Draft} {us : List Nat}, Flo.Draft.Readies line d us s.draft →
      Flo.Draft.Readies line d (us ++ vs a) s'.draft

section

variable {α β : Type} {vs : List Nat}

theorem temporary_readying (typ : Flo.Ty) :
    Readying cx.line (temporary cx typ) fun v => [v] := by
  intro s r s' h
  cases h
  exact ⟨_, rfl, rfl, fun h => h.addVariable typ⟩

theorem temporaries_readying (slots : List Slot) :
    Readying cx.line (slots.mapM fun s => temporary cx s.typ) id := by
  induction slots with
  | nil =>
    intro s r s' h
    rw [List.mapM_nil] at h
    cases h
    exact ⟨[], rfl, rfl, fun h => by simpa using h⟩
  | cons slot slots ih =>
    intro s r s' h
    rw [List.mapM_cons] at h
    obtain ⟨v, s₁, hv, h⟩ | ⟨e, -, he⟩ := Build.of_runOn_bind h
    swap
    · obtain ⟨_, hr, -⟩ := temporary_readying cx slot.typ _ _ _ he
      cases hr
    obtain ⟨v, hr, htypes, hready⟩ := temporary_readying cx slot.typ _ _ _ hv
    obtain rfl := Except.ok.inj hr
    obtain ⟨vs, s₂, hvs, h⟩ | ⟨e, -, he⟩ := Build.of_runOn_bind h
    swap
    · obtain ⟨_, hr, -⟩ := ih _ _ _ he
      cases hr
    obtain ⟨vs, hr, htypes', hready'⟩ := ih _ _ _ hvs
    obtain rfl := Except.ok.inj hr
    cases h
    exact ⟨_, rfl, htypes'.trans htypes, fun h => by simpa using hready' (hready h)⟩

omit [Flo.Draft.Schedules F] in
theorem Readying.keeps {m : LowerM α} {vs : α → List Nat} (hm : Readying line m vs)
    {f : α → LowerM β} (hf : ∀ a, (f a).Keeps (State.Settles line x S F (vs a))) :
    (m >>= f).Keeps (State.Moves x S F) := by
  intro s r s'' h
  obtain ⟨a, s', ha, h⟩ | ⟨e, -, he⟩ := Build.of_runOn_bind h
  swap
  · obtain ⟨_, hr, -⟩ := hm _ _ _ he
    cases hr
  obtain ⟨a, hr, htypes, hready⟩ := hm _ _ _ ha
  obtain rfl := Except.ok.inj hr
  have hsettles := hf _ _ _ _ h
  exact ⟨htypes ▸ hsettles.types, hsettles.frame (by simpa using hready .refl)⟩

/-- What follows the statement that writes the variables is like everything else. -/
theorem settles_bind {m : LowerM α} {f : α → LowerM β}
    (hm : m.Keeps (State.Settles line x S F vs)) (hf : ∀ a, (f a).Keeps (State.Moves x S F)) :
    (m >>= f).Keeps (State.Settles line x S F vs) := by
  refine Build.Keeps.bind_of_ran hm fun s a s' h r s'' h' => ?_
  have hsettles := hm.ran h
  have hmoves := hf a s' r s'' h'
  exact ⟨trans_of (Layout.Evolves x S []) hsettles.types hmoves.types,
    fun hd => trans_of F (hsettles.frame hd) hmoves.frame⟩

variable [Flo.Draft.Admits cx.line F]

omit [Flo.Draft.Schedules F] in
/-- A statement writes the variables. -/
theorem emit_settles {f : Flo.Note → Flo.Statement} (hnote : ∀ note, (f note).note? = some note)
    (h : ∀ note, ∀ v ∈ vs, v ∈ (f note).outputs) :
    (do emit (f (← note cx)) : LowerM Unit).Keeps (State.Settles cx.line x S F vs) := by
  intro s r s' hr
  cases hr
  exact ⟨refl_of (Layout.Evolves x S []) s.types,
    fun hd => Flo.Draft.Admits.addStatement hd (hnote _) rfl (h _)⟩

omit [Flo.Draft.Schedules F] in
theorem call_settles (block : Flo.BlockRef) (input : List Nat) {outputs : List Nat}
    (h : ∀ v ∈ vs, v ∈ outputs) :
    (call cx block input outputs).Keeps (State.Settles cx.line x S F vs) :=
  emit_settles cx (fun _ => rfl) fun _ => h

end

variable [Flo.Draft.Admits cx.line F]

omit [Flo.Draft.Schedules F] in
/-- A statement that writes no new variable. -/
theorem emit_keeps {f : Flo.Note → Flo.Statement} (hnote : ∀ note, (f note).note? = some note) :
    (do emit (f (← note cx)) : LowerM Unit).Keeps (State.Moves x S F) := by
  have hsettles : (do emit (f (← note cx)) : LowerM Unit).Keeps
      (State.Settles cx.line x S F []) := emit_settles cx hnote nofun
  exact hsettles.mono fun _ _ h => ⟨h.types, h.frame .refl⟩

omit [Flo.Draft.Schedules F] in
theorem assign_keeps (target source : Nat) :
    (assign cx target source).Keeps (State.Moves x S F) :=
  emit_keeps cx fun _ => rfl

omit [Flo.Draft.Schedules F] in
theorem call_keeps (block : Flo.BlockRef) (input outputs : List Nat) :
    (call cx block input outputs).Keeps (State.Moves x S F) :=
  emit_keeps cx fun _ => rfl

omit [Flo.Draft.Schedules F] in
theorem store_keeps (handle : Nat) (member : Flo.Member) (value : Nat) :
    (store cx handle member value).Keeps (State.Moves x S F) :=
  emit_keeps cx fun _ => rfl

theorem constant_keeps (c : Flo.Constant) : (constant cx c).Keeps (State.Moves x S F) := by
  refine (temporary_readying cx c.typ).keeps fun v => ?_
  rw [← bind_assoc]
  exact settles_bind (emit_settles cx (f := .assignConst v c) (fun _ => rfl) fun _ _ => id)
    fun _ => .pure _

theorem load_keeps (handle : Nat) (member : Flo.Member) (typ : Flo.Ty) :
    (load cx handle member typ).Keeps (State.Moves x S F) := by
  refine (temporary_readying cx typ).keeps fun v => ?_
  rw [← bind_assoc]
  exact settles_bind (emit_settles cx (f := .load handle member v) (fun _ => rfl) fun _ _ => id)
    fun _ => .pure _

theorem callRoutine_keeps (op : Operator) (input : List Nat) (types : List Flo.Ty)
    (result : Flo.Ty) (output : Option Nat) :
    (callRoutine cx op input types result output).Keeps (State.Moves x S F) := by
  unfold callRoutine
  cases cx.polyfills.forOperation? op types result with
  | none => exact .throw _
  | some routine =>
    cases output with
    | some v =>
      exact Build.Keeps.bind (.pure v) fun _ => (call_keeps cx _ _ _).bind fun _ => .pure _
    | none =>
      exact (temporary_readying cx result).keeps fun _ =>
        settles_bind (call_settles cx _ _ fun _ => id) fun _ => .pure _

variable {cx}

/-! ### Variables -/

omit [Flo.Draft.Admits cx.line F] in
theorem create_keeps (hx : x.Closed S) (line : Option Nat) [Flo.Draft.Admits line F]
    (name : String) {ty : Ty} (hS : S ty) {usage : Usage} (hu : usage ≠ .temporary) :
    (create x line name ty usage).Keeps (State.Moves x S F) := by
  refine (onTypes_keeps (represent_keeps hx hS)).bind fun r s res s' h => ?_
  cases h
  refine ⟨refl_of (Layout.Evolves x S []) s.types, ?_⟩
  change F s.draft (createVariable r name ty usage (s.draft.locate line).1
    (s.draft.locate line).2).2
  rw [createVariable_eq hu]
  exact Flo.Draft.Admits.addNamed s.draft _ _ _

omit [Flo.Draft.Admits cx.line F] in
theorem declare_keeps (hx : x.Closed S) (function : String) (line : Option Nat)
    [Flo.Draft.Admits line F] (name : String) {ty : Ty} (hS : S ty) {usage : Usage}
    (hu : usage ≠ .temporary) :
    (declare x function line name ty usage).Keeps (State.Moves x S F) := by
  refine Build.Keeps.get.bind fun s => ?_
  split
  · exact .throw _
  · refine (create_keeps hx line name hS hu).bind fun v => ?_
    exact (step_keeps (fun _ => rfl) fun _ => rfl).bind fun _ => .pure _

theorem lookup_keeps (hx : cx.index.Closed S) (name : String) (e : Expr) :
    (lookup cx name e).Keeps (State.Moves cx.index S F) := by
  rw [lookup_eq]
  refine Build.Keeps.get.bind fun s => ?_
  cases s.scope.find? fun v => v.name = name with
  | some v => exact Build.Keeps.bind (.pure v) fun _ => (check_keeps _).bind fun _ => .pure _
  | none =>
    cases hg : cx.index.global? name with
    | none =>
      exact Build.Keeps.bind (.throw _) fun _ => (check_keeps _).bind fun _ => .pure _
    | some ty =>
      exact (declare_keeps hx _ _ _ (hx.global?_mem hg) (by decide)).bind fun _ =>
        (check_keeps _).bind fun _ => .pure _

/-! ### Operands -/

theorem readInteger_keeps (hx : cx.index.Closed S) {ty : Ty} (hS : S ty) (value : Int) :
    (readInteger cx ty value).Keeps (State.Moves cx.index S F) := by
  cases ty with
  | integer width =>
    exact (valueType_keeps hx hS).bind fun _ => (check_keeps _).bind fun _ => constant_keeps cx _
  | boolean => exact constant_keeps cx _
  | real width => exact constant_keeps cx _
  | pointer base =>
    simp only [readInteger]
    split
    · exact (valueType_keeps hx hS).bind fun _ => constant_keeps cx _
    · exact .throw _
  | reference base =>
    simp only [readInteger]
    split
    · exact .throw _
    · exact .throw _
  | array base length => exact .throw _
  | record name fields => exact .throw _

theorem readReal_keeps (hx : cx.index.Closed S) {ty : Ty} (hS : S ty) (value : Double) :
    (readReal cx ty value).Keeps (State.Moves cx.index S F) := by
  refine (valueType_keeps hx hS).bind fun typ => ?_
  split
  · exact .throw _
  · exact constant_keeps cx _

omit [Flo.Draft.Admits cx.line F] in
theorem slotFor_keeps (hx : cx.index.Closed S) (struct : Nat) (member : String) (e : Expr) :
    (slotFor cx struct member e).Keeps (State.Moves cx.index S F) := by
  refine (onTypes_keeps (slotOf_keeps hx struct member)).bind fun slot => ?_
  refine (onTypes_keeps (recordOf_keeps struct)).bind fun record => ?_
  exact (check_keeps _).bind fun _ => .pure _

omit [Flo.Draft.Admits cx.line F] in
theorem fieldThrough_keeps (hx : cx.index.Closed S) {pointer : Expr} (hS : S pointer.ty)
    {readPointer : LowerM Nat} (hp : readPointer.Keeps (State.Moves cx.index S F))
    (member : String) (e : Expr) :
    (fieldThrough cx pointer readPointer member e).Keeps (State.Moves cx.index S F) := by
  unfold fieldThrough
  cases hb : pointer.ty.indirectBase.filter Ty.isRecord with
  | none => exact .throw _
  | some record =>
    have hbase : S record := hx.indirectBase hS (Option.filter_eq_some_iff.1 hb).1
    refine (onTypes_keeps (resolveHandle_keeps hx hbase)).bind fun struct => ?_
    refine (slotFor_keeps hx struct member e).bind fun slot => hp.bind fun handle => ?_
    split
    · exact markPanic_keeps.bind fun _ => .pure _
    · exact .pure _

theorem destructure_keeps (hx : cx.index.Closed S) {base : Expr} (hS : S base.ty)
    {readBase : LowerM Nat} (hp : readBase.Keeps (State.Moves cx.index S F))
    (member : String) (e : Expr) :
    (destructure cx base readBase member e).Keeps (State.Moves cx.index S F) := by
  unfold destructure
  split
  · exact .throw _
  · refine (onTypes_keeps (resolve_keeps hx hS)).bind fun struct => ?_
    refine (slotFor_keeps hx struct member e).bind fun slot => ?_
    refine (onTypes_keeps (slotsOf_keeps hx struct)).bind fun slots => hp.bind fun whole => ?_
    refine (temporaries_readying cx slots).keeps fun parts => ?_
    rw [← bind_assoc]
    exact settles_bind
      (emit_settles cx (f := .destructure whole parts) (fun _ => rfl) fun _ _ => id)
      fun _ => .pure _

theorem construct_keeps (hx : cx.index.Closed S) {base : Expr} (hS : S base.ty)
    (parts : List Nat) : (construct cx base parts).Keeps (State.Moves cx.index S F) := by
  refine (onTypes_keeps (resolve_keeps hx hS)).bind fun struct => ?_
  refine (temporary_readying cx _).keeps fun target => ?_
  rw [← bind_assoc]
  exact settles_bind
    (emit_settles cx (f := .construct target parts) (fun _ => rfl) fun _ _ => id)
    fun _ => .pure _

theorem readPointer_keeps {pointer : Expr} {read : LowerM Nat}
    (hp : read.Keeps (State.Moves x S F)) (e : Expr) :
    (readPointer pointer read e).Keeps (State.Moves x S F) := by
  unfold readPointer
  cases pointer.ty.indirectBase with
  | none => exact .throw _
  | some pointee =>
    refine (check_keeps _).bind fun _ => hp.bind fun handle => ?_
    split
    · exact markPanic_keeps.bind fun _ => .pure _
    · exact .pure _

theorem readElement_keeps {array index : Expr} {readArray readIndex : LowerM Nat}
    (ha : readArray.Keeps (State.Moves x S F)) (hi : readIndex.Keeps (State.Moves x S F))
    (e : Expr) : (readElement array index readArray readIndex e).Keeps (State.Moves x S F) := by
  unfold readElement
  split
  · refine (check_keeps _).bind fun _ => ?_
    split
    · exact .throw _
    · exact ha.bind fun _ => hi.bind fun _ => markPanic_keeps.bind fun _ => .pure _
  · exact .throw _

theorem read_keeps (hx : cx.index.Closed S) {e : Expr} (hS : ∀ ty ∈ e.types, S ty) :
    (read cx e).Keeps (State.Moves cx.index S F) := by
  fun_induction read cx e with
  | case1 ty value => exact readInteger_keeps hx (hS ty (by simp [Expr.types])) value
  | case2 ty value => exact readReal_keeps hx (hS ty (by simp [Expr.types])) value
  | case3 ty name => exact (lookup_keeps hx _ _).bind fun _ => .pure _
  | case4 ty rty pointer member ih =>
    have hp := ih fun t ht => hS t (by simp [Expr.types, ht])
    exact (fieldThrough_keeps hx (hS _ (by simp [Expr.types, pointer.ty_mem_types])) hp _ _).bind
      fun _ => load_keeps cx _ _ _
  | case5 ty base member hbase ih =>
    have hb := ih fun t ht => hS t (by simp [Expr.types, ht])
    exact (destructure_keeps hx (hS _ (by simp [Expr.types, base.ty_mem_types])) hb _ _).bind
      fun _ => .present _ _
  | case6 ty pointer ih =>
    have hp := ih fun t ht => hS t (by simp [Expr.types, ht])
    exact (readPointer_keeps hp _).bind fun _ =>
      (valueType_keeps hx (hS ty (by simp [Expr.types]))).bind fun _ => load_keeps cx _ _ _
  | case7 ty array index iha ihi =>
    have ha := iha fun t ht => hS t (by simp [Expr.types, ht])
    have hi := ihi fun t ht => hS t (by simp [Expr.types, ht])
    exact (readElement_keeps ha hi _).bind fun _ =>
      (valueType_keeps hx (hS ty (by simp [Expr.types]))).bind fun _ => load_keeps cx _ _ _
  | case8 ty value => exact .throw _

theorem write_keeps (hx : cx.index.Closed S) {e : Expr} (hS : ∀ ty ∈ e.types, S ty)
    (value : Nat) : (write cx e value).Keeps (State.Moves cx.index S F) := by
  fun_induction write cx e value with
  | case1 ty name value => exact (lookup_keeps hx _ _).bind fun _ => assign_keeps cx _ _
  | case2 ty rty pointer member value =>
    have hp : (read cx pointer).Keeps (State.Moves cx.index S F) :=
      read_keeps hx fun t ht => hS t (by simp [Expr.types, ht])
    exact (fieldThrough_keeps hx (hS _ (by simp [Expr.types, pointer.ty_mem_types])) hp _ _).bind
      fun _ => store_keeps cx _ _ _
  | case3 ty base member value hbase ih =>
    have hSb : S base.ty := hS _ (by simp [Expr.types, base.ty_mem_types])
    have hb : (read cx base).Keeps (State.Moves cx.index S F) :=
      read_keeps hx fun t ht => hS t (by simp [Expr.types, ht])
    refine (destructure_keeps hx hSb hb _ _).bind fun p => ?_
    refine (Build.Keeps.present _ _).bind fun parts => (construct_keeps hx hSb _).bind fun v => ?_
    exact ih v fun t ht => hS t (by simp [Expr.types, ht])
  | case4 ty pointer value =>
    have hp : (read cx pointer).Keeps (State.Moves cx.index S F) :=
      read_keeps hx fun t ht => hS t (by simp [Expr.types, ht])
    exact (readPointer_keeps hp _).bind fun _ => store_keeps cx _ _ _
  | case5 ty array index value =>
    have ha : (read cx array).Keeps (State.Moves cx.index S F) :=
      read_keeps hx fun t ht => hS t (by simp [Expr.types, ht])
    have hi : (read cx index).Keeps (State.Moves cx.index S F) :=
      read_keeps hx fun t ht => hS t (by simp [Expr.types, ht])
    exact (readElement_keeps ha hi _).bind fun _ => store_keeps cx _ _ _
  | case6 | case7 | case8 => exact .throw _

theorem readAll_keeps (hx : cx.index.Closed S) {es : List Expr}
    (hS : ∀ e ∈ es, ∀ ty ∈ e.types, S ty) :
    (es.mapM (read cx)).Keeps (State.Moves cx.index S F) :=
  .mapM es fun e he => read_keeps hx (hS e he)

/-! ### Statements -/

theorem destination_keeps (hx : cx.index.Closed S) (e : Expr) :
    (destination cx e).Keeps (State.Moves cx.index S F) := by
  unfold destination
  split
  · exact (lookup_keeps hx _ _).bind fun _ => .pure _
  · exact .pure _

theorem lowerOperation_keeps (hx : cx.index.Closed S) (op : Operator) {lhs : Expr}
    {operands : List Expr} (hl : ∀ ty ∈ lhs.types, S ty)
    (hS : ∀ e ∈ operands, ∀ ty ∈ e.types, S ty) :
    (lowerOperation cx op lhs operands).Keeps (State.Moves cx.index S F) := by
  refine (Build.Keeps.mapM operands fun e he =>
    valueType_keeps hx (hS e he _ e.ty_mem_types)).bind fun types => ?_
  refine (valueType_keeps hx (hl _ lhs.ty_mem_types)).bind fun result => ?_
  split
  · exact .throw _
  refine (readAll_keeps hx hS).bind fun inputs => (destination_keeps hx lhs).bind fun target => ?_
  cases target with
  | some target => exact (callRoutine_keeps cx _ _ _ _ _).bind fun _ => .pure _
  | none => exact (callRoutine_keeps cx _ _ _ _ _).bind fun v => write_keeps hx hl v

theorem lowerAssign_keeps (hx : cx.index.Closed S) (op : Operator) {lhs : Expr}
    {operands : List Expr} (hl : ∀ ty ∈ lhs.types, S ty)
    (hS : ∀ e ∈ operands, ∀ ty ∈ e.types, S ty) :
    (lowerAssign cx op lhs operands).Keeps (State.Moves cx.index S F) := by
  unfold lowerAssign
  dsimp only
  by_cases hclass : op.opClass = .pointerArithmetic
  · rw [if_pos hclass]
    exact .throw _
  rw [if_neg hclass]
  by_cases harity : operands.length = op.arity
  swap
  · rw [if_pos harity]
    exact .throw _
  rw [if_neg (not_not.2 harity)]
  refine (check_keeps _).bind fun _ => (check_keeps _).bind fun _ => ?_
  split
  · refine .present_bind fun source hsource => ?_
    exact (read_keeps hx (hS source (List.mem_of_getElem? hsource))).bind fun v =>
      write_keeps hx hl v
  · exact lowerOperation_keeps hx op hl hS

theorem lowerCall_keeps (hx : cx.index.Closed S) (function : String) {arguments : List Expr}
    {lhs : Option Expr} (hS : ∀ e ∈ arguments, ∀ ty ∈ e.types, S ty)
    (hl : ∀ e ∈ lhs, ∀ ty ∈ e.types, S ty) :
    (lowerCall cx function arguments lhs).Keeps (State.Moves cx.index S F) := by
  unfold lowerCall
  cases hf : cx.index.function? function with
  | none => exact .throw _
  | some callee =>
    simp only
    split
    · exact .throw _
    refine (check_keeps _).bind fun _ => (check_keeps _).bind fun _ => ?_
    refine (readAll_keeps hx hS).bind fun inputs => ?_
    split
    · rename_i lhs _
      refine (destination_keeps hx lhs).bind fun target => ?_
      cases target with
      | some target => exact call_keeps cx _ _ _
      | none =>
        refine (valueType_keeps hx (hl lhs rfl _ lhs.ty_mem_types)).bind fun typ => ?_
        refine (temporary_readying cx typ).keeps fun v => ?_
        exact settles_bind (call_settles cx _ _ fun _ => id) fun _ => write_keeps hx (hl lhs rfl) v
    · rename_i ty hret
      have hmem := List.mem_of_find?_eq_some hf
      refine (valueType_keeps hx (hx.result callee hmem ty hret)).bind fun typ => ?_
      exact (temporary_readying cx typ).keeps fun v => call_settles cx _ _ fun _ => id
    · exact call_keeps cx _ _ _

theorem caseCondition_keeps (selector : Nat) (typ : Flo.Ty) (c : Case) :
    (caseCondition cx selector typ c).Keeps (State.Moves x S F) := by
  refine (check_keeps _).bind fun low => (constant_keeps cx _).bind fun l => ?_
  split
  · exact callRoutine_keeps cx _ _ _ _ _
  · refine (check_keeps _).bind fun high => (constant_keeps cx _).bind fun g => ?_
    exact (callRoutine_keeps cx _ _ _ _ _).bind fun a =>
      (callRoutine_keeps cx _ _ _ _ _).bind fun b => callRoutine_keeps cx _ _ _ _ _

theorem lowerReturn_keeps (hx : cx.index.Closed S) {value : Option Expr}
    (hS : ∀ e ∈ value, ∀ ty ∈ e.types, S ty) :
    (lowerReturn cx value).Keeps (State.Moves cx.index S F) := by
  unfold lowerReturn
  split
  · exact .pure _
  · exact .throw _
  · exact .throw _
  · rename_i value _
    refine (check_keeps _).bind fun _ => (check_keeps _).bind fun _ => ?_
    refine (read_keeps hx (hS value rfl)).bind fun v => ?_
    cases cx.returnSlot with
    | none => exact .throw _
    | some slot => exact (assign_keeps cx _ _).bind fun _ => .pure _

end

/-! ### Declarations -/

section

variable [Flo.Draft.Schedules F]

theorem declareVariables_keeps [Flo.Draft.Admits none F] (hx : x.Closed S) {f : Function}
    (hS : ∀ ty ∈ f.types, S ty) : (declareVariables x f).Keeps (State.Moves x S F) := by
  simp only [Function.types, Signature.types, Function.signature, List.mem_append] at hS
  refine (Build.Keeps.mapM _ fun p hp => ?_).bind fun parameters => ?_
  · have hty : S p.ty := hS _ (.inl (.inl (.inl (List.mem_map_of_mem hp))))
    exact (declare_keeps hx _ _ _ hty (by decide)).bind fun _ => .pure _
  refine Build.Keeps.bind ?_ fun slot => (Build.Keeps.forM _ fun v hv => ?_).bind fun _ => .pure _
  · cases hret : f.returnType with
    | none => exact .pure _
    | some ty =>
      have hty : S ty := hS _ (.inl (.inl (.inr (by simp [hret]))))
      refine Build.Keeps.bind (Build.Keeps.bind ?_ fun _ => .pure _) fun _ => .pure _
      exact create_keeps hx _ _ hty (by decide)
  · have hty : S v.ty := hS _ (.inl (.inr (List.mem_map_of_mem hv)))
    exact (declare_keeps hx _ _ _ hty (by decide)).bind fun _ => .pure _

theorem prepare_keeps [Flo.Draft.Admits none F] (hx : x.Closed S) (ps : Polyfills)
    {f : Function} (hS : ∀ ty ∈ f.types, S ty) : (prepare x ps f).Keeps (State.Moves x S F) :=
  (check_keeps _).bind fun _ => (declareVariables_keeps hx hS).bind fun _ =>
    (blockFor_keeps _).bind fun _ => .pure _

theorem fallThrough_keeps {cx : Context} (block : Nat) :
    (fallThrough cx block).Keeps (State.Moves x S F) := by
  unfold fallThrough
  cases cx.function.blockAfter? block with
  | some next => exact (blockFor_keeps _).bind fun _ => .pure _
  | none =>
    simp only
    split
    · exact .pure _
    · exact markPanic_keeps.bind fun _ => .pure _

end

/-! ### Branches -/

section

variable [Flo.Draft.Schedules F] {cx : Context}

section

variable [Flo.Draft.AdmitsBlocks cx.line F]

omit [Flo.Draft.Schedules F] in
theorem addArm_keeps (condition target : Nat) :
    (addArm cx condition target).Keeps (State.Moves x S F) := by
  intro s r s' h
  cases h
  exact ⟨refl_of (Layout.Evolves x S []) s.types, Flo.Draft.AdmitsBlocks.addMatchArm ..⟩

theorem lowerConditional_keeps (hx : cx.index.Closed S) (op : Operator)
    {operands : List Expr} (t f : Nat) (hS : ∀ e ∈ operands, ∀ ty ∈ e.types, S ty) :
    (lowerConditional cx op operands t f).Keeps (State.Moves cx.index S F) := by
  unfold lowerConditional
  dsimp only
  by_cases hclass : op.opClass = .comparison
  swap
  · rw [if_pos hclass]
    exact .throw _
  rw [if_neg (not_not.2 hclass)]
  split
  · rename_i left right
    have hl := hS left (by simp)
    refine (check_keeps _).bind fun _ => (valueType_keeps hx (hl _ left.ty_mem_types)).bind
      fun typ => (blockFor_keeps t).bind fun _ => (blockFor_keeps f).bind fun _ => ?_
    refine (read_keeps hx hl).bind fun a => (read_keeps hx (hS right (by simp))).bind fun b => ?_
    refine (callRoutine_keeps cx _ _ _ _ _).bind fun c => (constant_keeps cx _).bind fun o => ?_
    exact (addArm_keeps _ _).bind fun _ => (addArm_keeps _ _).bind fun _ => .pure _
  · exact .throw _

theorem caseArms_keeps (selector : Nat) (typ : Flo.Ty) (cases : List (Case × Nat)) :
    (caseArms cx selector typ cases).Keeps (State.Moves x S F) := by
  induction cases with
  | nil => exact .pure _
  | cons p cases ih =>
    obtain ⟨c, target⟩ := p
    exact (caseCondition_keeps _ _ _).bind fun _ => (addArm_keeps _ _).bind fun _ =>
      ih.bind fun _ => .pure _

theorem lowerSwitch_keeps (hx : cx.index.Closed S) {value : Expr} (cases : List Case)
    (default : Nat) (hS : ∀ ty ∈ value.types, S ty) :
    (lowerSwitch cx value cases default).Keeps (State.Moves cx.index S F) := by
  unfold lowerSwitch
  split
  · exact .throw _
  refine (valueType_keeps hx (hS _ value.ty_mem_types)).bind fun typ => ?_
  refine (check_keeps _).bind fun _ => ?_
  refine (Build.Keeps.mapM cases fun c _ => blockFor_keeps c.block).bind fun targets => ?_
  refine (blockFor_keeps default).bind fun d => (read_keeps hx hS).bind fun v => ?_
  refine (caseArms_keeps _ _ _).bind fun arms => Build.Keeps.bind ?_ fun _ => .pure _
  exact (constant_keeps cx _).bind fun o => addArm_keeps _ _

theorem lowerStatement_keeps (hx : cx.index.Closed S) {stmt : Statement}
    (hS : ∀ ty ∈ stmt.types, S ty) :
    (lowerStatement cx stmt).Keeps (State.Moves cx.index S F) := by
  cases stmt with
  | assign op lhs operands line =>
    obtain ⟨hlhs, hops⟩ := Statement.forall_types_assign.1 hS
    exact (lowerAssign_keeps hx op hlhs hops).bind fun _ => .pure _
  | call function arguments lhs line =>
    obtain ⟨hargs, hlhs⟩ := Statement.forall_types_call.1 hS
    exact (lowerCall_keeps hx function hargs hlhs).bind fun _ => .pure _
  | conditional op operands t f line =>
    have hops := Statement.forall_types_conditional.1 hS
    exact (lowerConditional_keeps hx op t f hops).bind fun _ => .pure _
  | ret value line =>
    exact (lowerReturn_keeps hx (Statement.forall_types_ret.1 hS)).bind fun _ => .pure _
  | goto target line => exact (blockFor_keeps target).bind fun _ => .pure _
  | switch value cases default line =>
    exact (lowerSwitch_keeps hx cases default hS).bind fun _ => .pure _

end

/-! ### Blocks -/

theorem lowerStatements_keeps [∀ line, Flo.Draft.AdmitsBlocks line F]
    (hx : cx.index.Closed S) (block position : Nat)
    {stmts : List Statement} (hS : ∀ stmt ∈ stmts, ∀ ty ∈ stmt.types, S ty) :
    (lowerStatements cx block position stmts).Keeps (State.Moves cx.index S F) := by
  induction stmts generalizing position with
  | nil => exact .pure _
  | cons stmt rest ih =>
    refine Build.Keeps.bind (.mapError _ ?_) fun exit => ?_
    · split
      · exact Build.Keeps.throw _
      · have hline : ({ cx with line := stmt.line } : Context).index.Closed S := hx
        exact lowerStatement_keeps hline (hS stmt (by simp))
    · split
      · exact .pure _
      · exact ih (position + 1) fun t ht => hS t (by simp [ht])

theorem lowerBlock_keeps [∀ line, Flo.Draft.AdmitsBlocks line F] (hx : cx.index.Closed S)
    (index : Nat)
    (hS : ∀ b ∈ cx.function.blocks, ∀ stmt ∈ b.statements, ∀ ty ∈ stmt.types, S ty) :
    (lowerBlock cx index).Keeps (State.Moves cx.index S F) := by
  unfold lowerBlock
  cases hblock : cx.function.block? index with
  | none => exact .mapError _ (.throw _)
  | some block =>
    refine Build.Keeps.bind (step_keeps (fun _ => rfl) fun _ => rfl) fun _ => ?_
    refine (lowerStatements_keeps hx index 0
      (hS block (List.mem_of_find?_eq_some hblock))).bind fun exit => ?_
    cases exit with
    | some exit =>
      exact Build.Keeps.bind (.pure _) fun _ => Build.Keeps.bind .get fun _ => .pure _
    | none =>
      refine Build.Keeps.bind (.mapError _ (fallThrough_keeps index)) fun _ => ?_
      exact Build.Keeps.bind .get fun _ => .pure _

/-- Filling in a block changes the draft and nothing else. -/
theorem fill_eq_ok {ε : Type} {id : Nat} {block : Flo.Block} {s : State} {p : Except ε Unit × State}
    (h : (fill id block).runOn s = .ok p) :
    p = (.ok (), { s with draft := s.draft.fillBlock id block }) := by
  have hget : (get : Build State ε State).runOn s = .ok (.ok s, s) := rfl
  simp only [fill, Build.runOn_bind, hget] at h
  cases hd : s.draft.fillBlock? id block with
  | none => simp [hd] at h
  | some d =>
    simp only [hd, Build.present_some, Build.runOn_pure, Build.runOn_step] at h
    rw [← Except.ok.inj h, Flo.Draft.fillBlock, hd, Option.getD_some]

theorem fill_ran {ε : Type} {id : Nat} {block : Flo.Block} {s s' : State}
    (h : (fill id block : Build State ε Unit).Ran s () s') :
    s' = { s with draft := s.draft.fillBlock id block } :=
  (Prod.mk.inj (fill_eq_ok h)).2

theorem fill_keeps {ε : Type} (id : Nat) (block : Flo.Block) :
    (fill id block : Build State ε Unit).Keeps (State.Moves x S F) := by
  intro s r s' h
  obtain ⟨-, rfl⟩ := Prod.mk.inj (fill_eq_ok h)
  exact ⟨refl_of (Layout.Evolves x S []) s.types, Flo.Draft.Schedules.fillBlock _ _ _⟩

theorem lowerPending_keeps [∀ line, Flo.Draft.AdmitsBlocks line F] (hx : cx.index.Closed S)
    (hS : ∀ b ∈ cx.function.blocks, ∀ stmt ∈ b.statements, ∀ ty ∈ stmt.types, S ty) (fuel : Nat) :
    (lowerPending cx fuel).Keeps (State.Moves cx.index S F) := by
  induction fuel with
  | zero => exact .pure _
  | succ fuel ih =>
    refine Build.Keeps.get.bind fun s => ?_
    split
    · exact .pure _
    · refine Build.Keeps.bind (step_keeps (fun _ => rfl) fun _ => rfl) fun _ => ?_
      exact (lowerBlock_keeps hx _ hS).bind fun block => (fill_keeps _ block).bind fun _ => ih

/-- What the declarations and the blocks of a function do. -/
theorem moves_of_ran [∀ line, Flo.Draft.AdmitsBlocks line F] (hx : x.Closed S) {ps : Polyfills}
    {f : Function} (hS : ∀ ty ∈ f.types, S ty) {s s₁ s₂ : State} {slot : Option Nat}
    {parameters : List Nat} {entry fuel : Nat}
    (hprepare : (prepare x ps f).Ran s (⟨x, ps, f, slot, none⟩, parameters, entry) s₁)
    (hpending : (lowerPending ⟨x, ps, f, slot, none⟩ fuel).Ran s₁ () s₂) :
    State.Moves x S F s s₂ := by
  have hdeclared : (prepare x ps f).Keeps (State.Moves x S F) := prepare_keeps hx ps hS
  have hlowered : (lowerPending ⟨x, ps, f, slot, none⟩ fuel).Keeps (State.Moves x S F) :=
    lowerPending_keeps hx
      (fun b hb stmt hstmt ty hty => hS ty (Function.mem_types_of_statement hb hstmt hty)) fuel
  exact trans_of (State.Moves x S F) (hdeclared.ran hprepare) (hlowered.ran hpending)

end

end GimpleLowering.Lowering

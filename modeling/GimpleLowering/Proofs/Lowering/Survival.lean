import GimpleLowering.Proofs.Lowering.Runs

/-!
# What survives a failure

A function that cannot be lowered leaves its types behind for the functions after it, so what is
said of the types has to hold of every run, also of those that fail half way. Together with the
types, this follows the parts of the draft that no statement touches: its names, its exports, and
the types of the object, which are filled in when the whole unit is done.

## Main definitions

* `Lowering.State.Survives` — what every run does to the types, and what no run touches
* `Lowering.Reached` — the registries that functions are lowered from

## Main results

* `Lowering.lowerFunction_keeps` — the types evolve, whether or not a function could be lowered
* `Lowering.Reached.sound` — functions are lowered from sound registries
-/

namespace GimpleLowering.Lowering

open Gimple Layout

/-! ### The relation -/

/-- The draft differs in tables of code only. -/
structure Frame (d d' : Flo.Draft) : Prop where
  symbols : d'.object.symbols = d.object.symbols
  moduleName : d'.object.moduleName = d.object.moduleName
  types : d'.object.types = d.object.types
  source : d'.source = d.source

/-- The types evolve, and the names and exports of the object are not touched. -/
abbrev State.Survives (x : UnitIndex) (S : Ty → Prop) : State → State → Prop :=
  State.Moves x S Frame

variable {x : UnitIndex} {S : Ty → Prop}

theorem Frame.refl (d : Flo.Draft) : Frame d d := ⟨rfl, rfl, rfl, rfl⟩

theorem Frame.trans {d d' d'' : Flo.Draft} (h : Frame d d') (h' : Frame d' d'') : Frame d d'' :=
  ⟨h'.symbols.trans h.symbols, h'.moduleName.trans h.moduleName, h'.types.trans h.types,
    h'.source.trans h.source⟩

theorem Frame.of_extends {d d' : Flo.Draft} {code : List Flo.Statement} (h : d.Extends code d') :
    Frame d d' :=
  ⟨h.symbols, h.moduleName, h.types, h.source⟩

theorem Frame.fillBlock (d : Flo.Draft) (id : Nat) (b : Flo.Block) :
    Frame d (d.fillBlock id b) := by
  rw [d.fillBlock_eq]
  exact ⟨rfl, rfl, rfl, rfl⟩

instance : Flo.Draft.Allows Frame where
  refl := .refl
  trans _ _ _ := .trans
  locate d line := .of_extends (d.extends_locate line)
  addVariable d _ _ _ _ := .of_extends (d.extends_addVariable ..)
  addStatement d stmt := .of_extends (d.extends_addStatement stmt)
  addBlock _ _ := ⟨rfl, rfl, rfl, rfl⟩
  reserveBlock _ := ⟨rfl, rfl, rfl, rfl⟩
  fillBlock := .fillBlock

instance (line : Option Nat) : Flo.Draft.AdmitsBlocks line Frame where
  addMatchArm d _ _ :=
    .trans (.of_extends (d.extends_locate line)) (.of_extends (Flo.Draft.extends_addMatchArm ..))

/-! ### Functions -/

theorem prepare_context {ps : Polyfills} {f : Function} {s s' : State} {cx : Context}
    {parameters : List Nat} {entry : Nat}
    (h : (prepare x ps f).Ran s (cx, parameters, entry) s') :
    ∃ slot, cx = ⟨x, ps, f, slot, none⟩ := by
  simp only [prepare, Build.ran_bind, Build.ran_pure, Prod.mk.injEq] at h
  obtain ⟨_, _, -, p, _, -, _, _, -, ⟨rfl, -⟩, -⟩ := h
  exact ⟨p.2, rfl⟩

/-- The types, the variables and the statements are as they were. -/
structure State.Ends (s s' : State) : Prop where
  types : s'.types = s.types
  vars : s'.vars = s.vars
  statements : s'.statements = s.statements

instance : Std.Refl State.Ends := ⟨fun _ => ⟨rfl, rfl, rfl⟩⟩

instance : IsTrans State State.Ends :=
  ⟨fun _ _ _ h h' => ⟨h'.types.trans h.types, h'.vars.trans h.vars,
    h'.statements.trans h.statements⟩⟩

theorem finish_keeps {cx : Context} (parameters : List Nat) (entry : Nat) :
    (finish cx parameters entry).Keeps State.Ends := by
  have hfill : ∀ block, (fill entry block : LowerM Unit).Keeps State.Ends := by
    intro block s r s' h
    obtain ⟨-, rfl⟩ := Prod.mk.inj (fill_eq_ok h)
    rw [s.draft.fillBlock_eq]
    exact ⟨rfl, rfl, rfl⟩
  refine Build.Keeps.bind (.step fun s => ⟨rfl, ?_, ?_⟩) fun location => ?_
  · simp only [State.vars, Flo.Draft.vars_locate]
  · simpa using (s.draft.extends_locate (firstLine cx.function)).statements
  refine Build.Keeps.get.bind fun s => (Build.Keeps.present entry _).bind fun block => ?_
  exact Build.Keeps.get.bind fun s => (hfill _).bind fun _ => .step fun _ => ⟨rfl, rfl, rfl⟩

/-- Whether or not a function can be lowered, its types evolve. -/
theorem lowerAll_keeps (hx : x.Closed S) (ps : Polyfills) {f : Function}
    (hS : ∀ ty ∈ f.types, S ty) :
    (lowerAll x ps f).Keeps fun s s' => Layout.Evolves x S [] s.types s'.types := by
  have hblocks : ∀ b ∈ f.blocks, ∀ stmt ∈ b.statements, ∀ ty ∈ stmt.types, S ty :=
    fun b hb stmt hstmt ty hty => hS ty (Function.mem_types_of_statement hb hstmt hty)
  have hprepare : (prepare x ps f).Keeps (State.Survives x S) := prepare_keeps hx ps hS
  refine Build.Keeps.bind_of_ran ?_ fun s p s₁ hp r s₂ h => ?_
  · exact .mapError _ (hprepare.mono fun _ _ h => h.types)
  have h₁ := (hprepare.mapError _).ran hp
  obtain ⟨cx, parameters, entry⟩ := p
  obtain ⟨slot, rfl⟩ := prepare_context (Build.ran_mapError.1 hp)
  refine trans_of (Layout.Evolves x S []) h₁.types ?_
  have hpending : (lowerPending ⟨x, ps, f, slot, none⟩ f.blocks.length).Keeps
      (State.Survives x S) := lowerPending_keeps hx hblocks _
  have hrest : (do
      lowerPending ⟨x, ps, f, slot, none⟩ f.blocks.length
      locate ⟨x, ps, f, slot, none⟩ f.entryBlock 0 none
        (finish ⟨x, ps, f, slot, none⟩ parameters entry)).Keeps
      fun s s' => Layout.Evolves x S [] s.types s'.types := by
    refine Build.Keeps.bind_of_ran (hpending.mono fun _ _ h => h.types) ?_
    intro s _ s₁ h₁ r s₂ h₂
    have hends := ((finish_keeps parameters entry).mapError _) s₁ r s₂ h₂
    exact hends.types ▸ (hpending.ran h₁).types
  exact hrest s₁ r s₂ h

/-- A function is lowered from an initial state, and its object is what the draft is in the end. -/
theorem lowerFunction_eq_ok {ps : Polyfills} {source : String} {f : Function}
    {types types' : Registry} {res : Except Failure Flo.Object}
    (h : (lowerFunction x ps source f).runOn types = .ok (res, types')) :
    ∃ r s, (lowerAll x ps f).runOn (.initial types f.name source) = .ok (r, s) ∧
      res = r.map (fun _ => s.draft.object) ∧ types' = s.types := by
  simp only [lowerFunction, Build.runOn_ofRun] at h
  obtain ⟨⟨r, s⟩, hall, h⟩ := Except.of_bind h
  obtain ⟨hres, htypes⟩ := Prod.mk.inj (Except.ok.inj h)
  exact ⟨r, s, hall, hres.symm, htypes.symm⟩

/-- Whether or not a function can be lowered, the types evolve. -/
theorem lowerFunction_keeps (hx : x.Closed S) (ps : Polyfills) (source : String) {f : Function}
    (hS : ∀ ty ∈ f.types, S ty) :
    (lowerFunction x ps source f).Keeps (Layout.Evolves x S []) := by
  intro types r types' h
  obtain ⟨p, s, hall, -, rfl⟩ := lowerFunction_eq_ok h
  exact lowerAll_keeps hx ps hS _ p s hall

/-! ### The registries that occur -/

/-- The registries that functions of a unit are lowered from. Nothing is registered at first, and
every function leaves its types behind, whether or not it could be lowered; so does the completion
of the types. -/
inductive Reached (x : UnitIndex) : Registry → Prop where
  | empty : Reached x .empty
  | lowered {ps : Polyfills} {source : String} {f : Function} {types types' : Registry}
      {r : Except Failure Flo.Object} (h : Reached x types)
      (run : (lowerFunction x ps source f).runOn types = .ok (r, types')) : Reached x types'
  | finalized {types types' : Registry} {r : Except Error Unit} (h : Reached x types)
      (run : (finalize x).runOn types = .ok (r, types')) : Reached x types'

theorem Reached.sound {types : Registry} (h : Reached x types) :
    types.Sound x fun _ => True := by
  induction h with
  | empty => exact .empty x _
  | lowered h run ih => exact (lowerFunction_keeps (.univ x) _ _ (by simp) _ _ _ run ih).sound
  | finalized h run ih => exact (finalize_keeps (.univ x) _ _ _ run ih).sound

end GimpleLowering.Lowering

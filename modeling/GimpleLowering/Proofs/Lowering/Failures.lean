import GimpleLowering.Proofs.Lowering.Foresight
import GimpleLowering.Proofs.Lowering.Functions

/-!
# What failures say

A function fails either before its statements, when its variables are declared, or at one of its
statements. Between the statements nothing can go wrong: control only falls through to blocks that
exist, a block is only scheduled if there is one, and its place in the object was handed out before
it is filled in. So the location of a failure, if there is one, is that of a statement which control
can get to.

## Main definitions

* `Lowering.FailsIn` — the failure is about a statement of a block
* `Failure.Explains` — the failure says what is wrong with a function

## Main results

* `Lowering.lowerFunction_ends` — what a function that cannot be lowered fails with
-/

namespace GimpleLowering

open Gimple Layout

namespace Lowering

variable {x : UnitIndex} {cx : Context} {ps : Polyfills} {s : State}

/-! ### Blocks -/

/-- The failure is about a statement of the block with the given index, and is possible there. -/
def FailsIn (f : Function) (label : Nat) (F : Failure) : Prop :=
  ∃ block i stmt, f.block? label = some block ∧ block.statements[i]? = some stmt ∧
    F.function = f.name ∧ F.location = some ⟨label, i, stmt.line⟩ ∧ ForeseenAt stmt F.error

/-- The positions of statements are counted from that of the first one. -/
theorem lowerStatements_careful (hslot : cx.returnSlot.isSome = cx.function.returnType.isSome)
    (label position : Nat) (stmts : List Statement) :
    Careful cx.index (fun F : Failure => ∃ i stmt, stmts[i]? = some stmt ∧
        F.function = cx.function.name ∧ F.location = some ⟨label, position + i, stmt.line⟩ ∧
        ForeseenAt stmt F.error)
      (lowerStatements cx label position stmts) := by
  induction stmts generalizing position with
  | nil => exact .pure _
  | cons stmt rest ih =>
    refine Build.Safe.bind (.mapError (Build.Safe.mono (E := ForeseenAt stmt) ?_ (fun _ hb => hb)
      fun e he => ⟨0, stmt, rfl, rfl, rfl, he⟩)) fun exit => ?_
    · split
      · exact .throw ⟨nofun, fun _ => ⟨nofun, nofun⟩⟩
      · have hslot' : ({ cx with line := stmt.line } : Context).returnSlot.isSome = _ := hslot
        exact lowerStatement_careful hslot' stmt
    · split
      · exact .pure _
      · refine (ih (position + 1)).mono (fun _ hb => hb) ?_
        rintro F ⟨i, stmt', hstmt, hname, hlocation, he⟩
        exact ⟨i + 1, stmt', hstmt, hname, by rw [hlocation, Nat.add_right_comm, Nat.add_assoc], he⟩

/-- The block after another one is a block. -/
theorem block?_of_blockAfter? {f : Function} {index : Nat} {next : Block}
    (h : f.blockAfter? index = some next) : (f.block? next.index).isSome := by
  have hmem : next ∈ f.blocks := (List.dropWhile_sublist _).subset (List.mem_of_getElem? h)
  simp only [Function.block?, List.find?_isSome]
  exact ⟨next, hmem, by simp⟩

/-- Falling through never fails. -/
theorem fallThrough_careful (index : Nat) : Careful x (fun _ => False) (fallThrough cx index) := by
  unfold fallThrough
  cases hafter : cx.function.blockAfter? index with
  | some next =>
    refine (blockFor_careful fun _ hnone => ?_).bind fun _ => .pure _
    have hsome := block?_of_blockAfter? hafter
    rw [hnone] at hsome
    cases hsome
  | none =>
    simp only
    split
    · exact .pure _
    · exact markPanic_careful.bind fun _ => .pure _

theorem lowerBlock_careful (hslot : cx.returnSlot.isSome = cx.function.returnType.isSome)
    {label : Nat} (hlabel : (cx.function.block? label).isSome) :
    Careful cx.index (FailsIn cx.function label) (lowerBlock cx label) := by
  obtain ⟨block, hblock⟩ := Option.isSome_iff_exists.1 hlabel
  simp only [lowerBlock, hblock]
  refine Build.Safe.bind (step_careful fun _ => rfl) fun _ => ?_
  refine Build.Safe.bind ((lowerStatements_careful hslot label 0 block.statements).mono
    (fun _ hb => hb) ?_) fun exit => ?_
  · rintro F ⟨i, stmt, hstmt, hname, hlocation, he⟩
    exact ⟨block, i, stmt, hblock, hstmt, hname, by simpa using hlocation, he⟩
  · cases exit with
    | some exit => exact Build.Safe.bind (.pure _) fun _ => Build.Safe.get.bind fun _ => .pure _
    | none =>
      refine Build.Safe.bind (.mapError ?_) fun _ => Build.Safe.get.bind fun _ => .pure _
      exact (fallThrough_careful label).mono (fun _ hb => hb) fun _ => False.elim

/-- A block whose id was handed out can be filled in. -/
theorem fill_ends {ε : Type} {B : Breakdown → Prop} {E : ε → Prop} {id : Nat}
    (hid : id < s.rows.length) (row : Flo.Block) :
    (fill id row : Build State ε Unit).EndsUnless s B E := by
  refine Build.EndsUnless.get.bind fun t s' ht => ?_
  obtain ⟨rfl, rfl⟩ := Build.ran_get.1 ht
  refine Build.EndsUnless.bind (.present ?_) fun _ _ _ => .step _
  have hlt : id < s'.draft.object.blocks.entries.size := by
    simpa [State.rows, Flo.Table.rows] using hid
  simp [Flo.Draft.fillBlock?, Flo.Table.swap?, hlt]

/-- The labels of all pending blocks can be reached, so a failure is about a statement that can be
reached. -/
theorem lowerPending_ends (hslot : cx.returnSlot.isSome = cx.function.returnType.isSome)
    {done : List (Nat × Nat)} (hinv : s.Inv (cx.setting fun _ => True))
    (h : Progress (cx.setting fun _ => True) cx.polyfills done s) (fuel : Nat) :
    (lowerPending cx fuel).EndsUnless s (SomeAwaitsItself cx.index)
      fun F => ∃ label, cx.function.Reaches label ∧ FailsIn cx.function label F := by
  induction fuel generalizing s done with
  | zero => exact .pure _
  | succ fuel ih =>
    refine Build.EndsUnless.get.bind fun t s' ht => ?_
    obtain ⟨rfl, rfl⟩ := Build.ran_get.1 ht
    cases hpending : s'.pending with
    | nil => exact .pure _
    | cons p pending =>
      have hp : p ∈ s'.blocks := by simp [h.blocks, hpending]
      refine Build.EndsUnless.bind (.step _) fun _ s₁ hs₁ => ?_
      obtain ⟨-, rfl⟩ := Build.ran_step.1 hs₁
      refine Build.EndsUnless.bind ?_ fun row s₂ hrow => ?_
      · have hblock := (hinv.planned.declared p hp).2
        exact ((lowerBlock_careful hslot hblock).ends { s' with pending } hinv.sound).mono
          (fun _ hb => hb) fun F hF => ⟨p.1, h.reached p hp, hF⟩
      · obtain ⟨-, hinv', h', -⟩ :=
          h.step (.univ _) (belongs_of_types fun _ _ => trivial) hinv hpending hrow
        refine Build.EndsUnless.bind (fill_ends ?_ row) fun _ s₃ hs₃ => ?_
        · have hblocks : s₂.blocks = done ++ [p] ++ s₂.pending := h'.blocks
          have hmem : p ∈ s₂.blocks := by simp [hblocks]
          have hlt : p.2 < (s₂.draft.fillBlock p.2 row).object.blocks.rows.length :=
            (hinv'.planned.id_bounds hmem).2
          rwa [Flo.Draft.rows_fillBlock, List.length_set] at hlt
        · rw [fill_ran hs₃]
          exact ih hinv' h'

/-! ### Functions -/

theorem declareVariables_careful (f : Function) :
    Careful x Foreseen (declareVariables x f) := by
  refine (Build.Safe.mapM _ fun p _ => ?_).bind fun parameters => ?_
  · exact (declare_careful _ _ _ _ _).bind fun _ => .pure _
  refine Build.Safe.bind ?_ fun slot => (Build.Safe.forM _ fun v _ => ?_).bind fun _ => .pure _
  · cases f.returnType with
    | none => exact .pure _
    | some ty =>
      exact Build.Safe.bind ((create_careful _ _ _ _).bind fun _ => .pure _) fun _ => .pure _
  · exact (declare_careful _ _ _ _ _).bind fun _ => .pure _

theorem prepare_careful (f : Function) : Careful x Blames (prepare x ps f) := by
  refine (check_careful fun e he => ?_).bind fun _ => ?_
  · cases hv : f.validate with
    | ok u => simp [hv, Except.mapError] at he
    | error c =>
      simp only [hv, Except.mapError, Except.error.injEq] at he
      subst he
      nofun
  · refine (declareVariables_careful f).blames.bind fun p => ?_
    exact (blockFor_blames _).bind fun _ => .pure _

/-- The entry is one of the blocks, so giving it a signature never fails. -/
theorem finish_ends {B : Breakdown → Prop} {E : Error → Prop} {parameters : List Nat} {entry : Nat}
    (hentry : entry < s.rows.length) : (finish cx parameters entry).EndsUnless s B E := by
  refine Build.EndsUnless.bind (.step _) fun l s₁ hs₁ => ?_
  have hentry : entry < s₁.rows.length := by
    obtain ⟨-, rfl⟩ := Build.ran_step.1 hs₁
    have hblocks := (s.draft.extends_locate (firstLine cx.function)).blocks
    simpa only [State.rows, hblocks] using hentry
  refine Build.EndsUnless.get.bind fun t s₂ ht => ?_
  obtain ⟨rfl, rfl⟩ := Build.ran_get.1 ht
  refine Build.EndsUnless.bind (.present ?_) fun block s₃ hblock => ?_
  · rw [Flo.Table.get?_eq_rows]
    simpa [State.rows] using hentry
  obtain ⟨-, rfl⟩ := Build.ran_present.1 hblock
  refine Build.EndsUnless.get.bind fun t s₄ ht => ?_
  obtain ⟨rfl, rfl⟩ := Build.ran_get.1 ht
  exact (fill_ends hentry _).bind fun _ _ _ => .step _

/-- A function fails before its statements, or else at a statement that control can get to. -/
theorem lowerAll_ends {f : Function} {types : Registry} (hs : types.Sound x fun _ => True)
    (source : String) :
    (lowerAll x ps f).EndsUnless (.initial types f.name source) (SomeAwaitsItself x) fun F =>
      (F.function = f.name ∧ F.location = none ∧ Blames F.error ∧
        ∃ s, (prepare x ps f).Fails (.initial types f.name source) F.error s) ∨
      ((∃ p s, (prepare x ps f).Ran (.initial types f.name source) p s) ∧
        ∃ label, f.Reaches label ∧ FailsIn f label F) := by
  have hcareful : Careful x Blames (prepare x ps f) := prepare_careful f
  have hprepare := hcareful.ends (.initial types f.name source) hs
  refine Build.EndsUnless.bind ?_ fun p s₁ hp => ?_
  · refine .mapError ⟨hprepare.breaks, fun {e s'} he => .inl ⟨rfl, rfl, hprepare.fails he, s', he⟩⟩
  have hp := Build.ran_mapError.1 hp
  obtain ⟨cx, parameters, entry⟩ := p
  obtain ⟨slot, vs, ls, rfl, -, hslot, -, -, -, -, hinv, hprogress, hentry, -⟩ :=
    prepare_ran (.univ x) (by simp) hs hp
  set cx : Context := ⟨x, ps, f, slot, none⟩ with hcx
  refine Build.EndsUnless.bind ?_ fun _ s₂ hpending => ?_
  · exact (lowerPending_ends hslot hinv hprogress _).mono (fun _ hb => hb)
      fun F hF => .inr ⟨⟨_, s₁, hp⟩, hF⟩
  · have hfuel : cx.function.blocks.length ≤ ([] : List (Nat × Nat)).length + f.blocks.length := by
      simp [hcx]
    obtain ⟨hgrows, hinv₂, -, -⟩ :=
      lowerPending_ran (.univ x) (belongs_of_types fun _ _ => trivial) hinv hprogress hfuel hpending
    exact .mapError (finish_ends (hinv₂.planned.id_bounds (hgrows.blocks.subset hentry)).2)

end Lowering

/-- The failure says what is wrong with a function of the unit with the index `x`, lowered from the
registered types. Without a location, it is about the declaration of the variables. With one, it is
about the statement there, on its line, and control can get to that statement. -/
structure Failure.Explains (F : Failure) (x : UnitIndex) (ps : Polyfills) (source : String)
    (types : Registry) (f : Function) : Prop where
  function : F.function = f.name
  kind : F.error.kind ≠ .internal
  unlocated : F.location = none ↔
    ∃ s, (Lowering.prepare x ps f).Fails (.initial types f.name source) F.error s
  located : ∀ l, F.location = some l → f.Reaches l.block ∧
    ∃ block stmt, f.block? l.block = some block ∧ block.statements[l.statement]? = some stmt ∧
      l.line = stmt.line ∧
      (stmt.isTerminator = false → ∀ op tys, F.error ≠ .unsupportedConstruct (.noRoutine op tys))

namespace Lowering

/-- A function that cannot be lowered fails with an explanation. -/
theorem lowerFunction_ends {f : Function} {types : Registry} (hs : types.Sound x fun _ => True)
    (source : String) :
    (lowerFunction x ps source f).EndsUnless types (SomeAwaitsItself x)
      fun F => F.Explains x ps source types f := by
  have hends : (lowerAll x ps f).EndsUnless _ _ _ := lowerAll_ends hs source
  constructor
  · intro b hb
    simp only [lowerFunction, Build.runOn_ofRun] at hb
    cases hall : (lowerAll x ps f).runOn (.initial types f.name source) with
    | error b' =>
      rw [hall] at hb
      cases hb
      exact hends.breaks hall
    | ok p =>
      rw [hall] at hb
      cases hb
  · intro F types' hF
    obtain ⟨r, s, hall, hr, -⟩ := lowerFunction_eq_ok hF
    cases r with
    | ok u => cases hr
    | error F' =>
      obtain rfl := Except.error.inj hr
      rcases hends.fails hall with ⟨hname, hnone, hblames, hfails⟩ |
        ⟨⟨p, t, hran⟩, label, hreaches, block, i, stmt, hblock, hstmt, hname, hlocation, he⟩
      · refine ⟨hname, hblames, ⟨fun _ => hfails, fun _ => hnone⟩, fun l hl => ?_⟩
        rw [hnone] at hl
        cases hl
      · refine ⟨hname, he.1, ⟨fun hnone => ?_, fun hprepare => ?_⟩, fun l hl => ?_⟩
        · rw [hlocation] at hnone
          cases hnone
        · obtain ⟨t', hfails⟩ := hprepare
          exact absurd (hfails.symm.trans hran) (by simp)
        · obtain rfl := Option.some.inj (hl.symm.trans hlocation)
          exact ⟨hreaches, block, stmt, hblock, hstmt, rfl, fun hterm => (he.2 hterm).2⟩

end Lowering

end GimpleLowering

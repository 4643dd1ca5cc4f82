import GimpleLowering.Proofs.Lowering.Survival

/-!
# The arms of branches

An arm is added for a label of a branch and for nothing else, and the exit of the block lists the
arms in the order in which they were added. All other steps are in the relation `SameArms`, which
says so of a failed run as well.

## Main definitions

* `Flo.BlockExit.arms`, `Flo.Block.arms` — the arms that an exit and a block list
* `Lowering.Lists` — the arms that are added in a run, in order

## Main results

* `Lowering.lowerBlock_arms` — the exit of a block lists the arms that were added for the block
-/

namespace GimpleLowering

open Gimple Layout

/-- The arms that the exit lists. -/
def Flo.BlockExit.arms : Flo.BlockExit → List Nat
  | .branch arms => arms
  | .ret _ | .panic _ _ | .goto _ | .unspecified => []

/-- The arms that a block ends with. -/
def Flo.Block.arms (b : Flo.Block) : List Nat := b.exit.arms

namespace Lowering

/-! ### Other steps -/

/-- The arms are as they were. -/
def SameArms (d d' : Flo.Draft) : Prop := d'.object.matchArms = d.object.matchArms

instance : Flo.Draft.Allows SameArms where
  refl _ := rfl
  trans _ _ _ h h' := Eq.trans h' h
  locate := Flo.Draft.matchArms_locate
  addVariable _ _ _ _ _ := rfl
  addStatement _ _ := rfl
  addBlock _ _ := rfl
  reserveBlock _ := rfl
  fillBlock d id b := by
    rw [d.fillBlock_eq]
    rfl

variable {cx : Context} {s s' s'' : State} {arms arms' : List Nat}

/-- A run of a computation that adds no arm. -/
theorem arms_eq (x : UnitIndex) {α ε : Type} {m : Build State ε α}
    (hm : m.Keeps (State.Moves x (fun _ => True) SameArms)) {a : α} (hr : m.Ran s a s') :
    s'.arms = s.arms := by
  have harms : s'.draft.object.matchArms = s.draft.object.matchArms := (hm.ran hr).frame
  unfold State.arms
  rw [harms]

/-! ### Added arms -/

/-- The arms `arms` are added one after the other, and no others. -/
structure Lists (s : State) (arms : List Nat) (s' : State) : Prop where
  ids : arms = List.range' s.arms.length arms.length
  length : s'.arms.length = s.arms.length + arms.length

theorem Lists.nil (h : s'.arms = s.arms) : Lists s [] s' := ⟨rfl, by simp [h]⟩

theorem Lists.append (h : Lists s arms s') (h' : Lists s' arms' s'') :
    Lists s (arms ++ arms') s'' := by
  refine ⟨?_, ?_⟩
  · rw [List.length_append, ← List.range'_append_1, ← h.ids, ← h.length, ← h'.ids]
  · rw [h'.length, h.length, List.length_append, Nat.add_assoc]

/-- Steps before that add no arm. -/
theorem Lists.of_eq (h : Lists s' arms s'') (heq : s'.arms = s.arms) : Lists s arms s'' :=
  ⟨heq ▸ h.ids, heq ▸ h.length⟩

theorem addArm_arms {condition target arm : Nat} (hr : (addArm cx condition target).Ran s arm s') :
    Lists s [arm] s' := by
  simp only [addArm, Build.ran_bind] at hr
  obtain ⟨l, s₁, hloc, hr⟩ := hr
  have hsame : s₁.arms = s.arms := arms_eq cx.index (location_keeps cx) hloc
  obtain ⟨rfl, rfl⟩ := Build.ran_step.1 hr
  refine Lists.of_eq ⟨?_, ?_⟩ hsame
  · simp [State.arms, Flo.Draft.addMatchArm]
  · simp [State.arms, Flo.Draft.addMatchArm]

/-! ### Branches -/

theorem caseArms_arms {selector : Nat} {typ : Flo.Ty} {cases : List (Case × Nat)}
    (hr : (caseArms cx selector typ cases).Ran s arms s') : Lists s arms s' := by
  induction cases generalizing s arms with
  | nil =>
    obtain ⟨rfl, rfl⟩ := Build.ran_pure.1 hr
    exact .nil rfl
  | cons p cases ih =>
    obtain ⟨c, target⟩ := p
    simp only [caseArms, Build.ran_bind, Build.ran_pure] at hr
    obtain ⟨v, s₁, hc, arm, s₂, harm, rest, s₃, hrest, rfl, rfl⟩ := hr
    have hsame : s₁.arms = s.arms := arms_eq cx.index (caseCondition_keeps _ _ _) hc
    exact ((addArm_arms harm).of_eq hsame).append (ih hrest)

theorem lowerConditional_arms {op : Operator} {operands : List Expr} {t f : Nat}
    {exit : Flo.BlockExit} (hr : (lowerConditional cx op operands t f).Ran s exit s') :
    Lists s exit.arms s' := by
  unfold lowerConditional at hr
  by_cases hop : op.opClass = .comparison
  swap
  · simp [hop] at hr
  rw [if_neg (not_not.2 hop)] at hr
  split at hr
  swap
  · simp at hr
  rename_i left right
  simp only [check, Build.ran_bind, Build.ran_ofExcept, Build.ran_pure] at hr
  obtain ⟨_, s, ⟨-, rfl⟩, typ, s₁, htyp, tid, s₂, ht, fid, s₃, hf, a, s₄, ha, b, s₅, hb, c, s₆,
    hc, o, s₇, ho, first, s₈, hfirst, second, s₉, hsecond, rfl, rfl⟩ := hr
  have h₁ : s₁.arms = s.arms := arms_eq cx.index (valueType_keeps (.univ _) trivial) htyp
  have h₂ : s₂.arms = s₁.arms := arms_eq cx.index (blockFor_keeps _) ht
  have h₃ : s₃.arms = s₂.arms := arms_eq cx.index (blockFor_keeps _) hf
  have h₄ : s₄.arms = s₃.arms := arms_eq cx.index (read_keeps (.univ _) (by simp)) ha
  have h₅ : s₅.arms = s₄.arms := arms_eq cx.index (read_keeps (.univ _) (by simp)) hb
  have h₆ : s₆.arms = s₅.arms := arms_eq cx.index (callRoutine_keeps _ _ _ _ _ _) hc
  have h₇ : s₇.arms = s₆.arms := arms_eq cx.index (constant_keeps _ _) ho
  have hsame : s₇.arms = s.arms := by rw [h₇, h₆, h₅, h₄, h₃, h₂, h₁]
  exact ((addArm_arms hfirst).of_eq hsame).append (addArm_arms hsecond)

theorem lowerSwitch_arms {value : Expr} {cases : List Case} {default : Nat}
    {exit : Flo.BlockExit} (hr : (lowerSwitch cx value cases default).Ran s exit s') :
    Lists s exit.arms s' := by
  unfold lowerSwitch at hr
  split at hr
  · simp at hr
  simp only [check, addDefaultArm, Build.ran_bind, Build.ran_ofExcept, Build.ran_pure] at hr
  obtain ⟨typ, _, htyp, _, s₁, ⟨-, rfl⟩, targets, s₂, htargets, d, s₃, hd, sel, s₄, hsel, arms,
    s₅, harms, last, s₆, ⟨o, s₇, ho, hlast⟩, rfl, rfl⟩ := hr
  have h₁ : s₁.arms = s.arms := arms_eq cx.index (valueType_keeps (.univ _) trivial) htyp
  have h₂ : s₂.arms = s₁.arms :=
    arms_eq cx.index (.mapM cases fun c _ => blockFor_keeps c.block) htargets
  have h₃ : s₃.arms = s₂.arms := arms_eq cx.index (blockFor_keeps _) hd
  have h₄ : s₄.arms = s₃.arms := arms_eq cx.index (read_keeps (.univ _) (by simp)) hsel
  have hsame : s₄.arms = s.arms := by rw [h₄, h₃, h₂, h₁]
  have h₇ : s₇.arms = s₅.arms := arms_eq cx.index (constant_keeps _ _) ho
  exact ((caseArms_arms harms).of_eq hsame).append ((addArm_arms hlast).of_eq h₇)

/-- A return lists no arms. -/
theorem lowerReturn_arms {value : Option Expr} {exit : Flo.BlockExit}
    (hr : (lowerReturn cx value).Ran s exit s') : Lists s exit.arms s' := by
  have hsame := arms_eq cx.index (lowerReturn_keeps (.univ _) (by simp)) hr
  unfold lowerReturn at hr
  split at hr
  · obtain ⟨rfl, -⟩ := Build.ran_pure.1 hr
    exact .nil hsame
  · cases hr
  · cases hr
  · simp only [Build.ran_bind] at hr
    obtain ⟨_, _, -, _, _, -, _, _, -, hr⟩ := hr
    cases hslot : cx.returnSlot with
    | none => simp [hslot] at hr
    | some slot =>
      simp only [hslot, Build.ran_bind, Build.ran_pure] at hr
      obtain ⟨_, _, -, rfl, -⟩ := hr
      exact .nil hsame

/-! ### Blocks -/

theorem lowerStatement_arms {stmt : Statement} {exit : Option Flo.BlockExit}
    (hr : (lowerStatement cx stmt).Ran s exit s') :
    Lists s (exit.elim [] Flo.BlockExit.arms) s' := by
  cases stmt with
  | assign op lhs operands line =>
    simp only [lowerStatement, Build.ran_bind, Build.ran_pure] at hr
    obtain ⟨_, _, hr, rfl, rfl⟩ := hr
    exact .nil (arms_eq cx.index (lowerAssign_keeps (.univ _) op (by simp) (by simp)) hr)
  | call function arguments lhs line =>
    simp only [lowerStatement, Build.ran_bind, Build.ran_pure] at hr
    obtain ⟨_, _, hr, rfl, rfl⟩ := hr
    exact .nil (arms_eq cx.index (lowerCall_keeps (.univ _) function (by simp) (by simp)) hr)
  | conditional op operands t f line =>
    simp only [lowerStatement, Build.ran_bind, Build.ran_pure] at hr
    obtain ⟨exit, _, hr, rfl, rfl⟩ := hr
    exact lowerConditional_arms hr
  | ret value line =>
    simp only [lowerStatement, Build.ran_bind, Build.ran_pure] at hr
    obtain ⟨exit, _, hr, rfl, rfl⟩ := hr
    exact lowerReturn_arms hr
  | goto target line =>
    simp only [lowerStatement, Build.ran_bind, Build.ran_pure] at hr
    obtain ⟨id, _, hr, rfl, rfl⟩ := hr
    exact .nil (arms_eq cx.index (blockFor_keeps _) hr)
  | switch value cases default line =>
    simp only [lowerStatement, Build.ran_bind, Build.ran_pure] at hr
    obtain ⟨exit, _, hr, rfl, rfl⟩ := hr
    exact lowerSwitch_arms hr

/-- Only a terminator has an exit. -/
theorem lowerStatement_eq_none {stmt : Statement} (h : stmt.isTerminator = false)
    {exit : Option Flo.BlockExit} (hr : (lowerStatement cx stmt).Ran s exit s') : exit = none := by
  cases stmt with
  | assign | call =>
    simp only [lowerStatement, Build.ran_bind, Build.ran_pure] at hr
    obtain ⟨_, _, -, rfl, -⟩ := hr
    rfl
  | conditional | ret | goto | switch => cases h

/-- Control that falls through does not branch. -/
theorem fallThrough_arms {index : Nat} {exit : Flo.BlockExit}
    (hr : (fallThrough cx index).Ran s exit s') : Lists s exit.arms s' := by
  have hsame := arms_eq cx.index (fallThrough_keeps index) hr
  unfold fallThrough at hr
  cases hafter : cx.function.blockAfter? index with
  | some next =>
    simp only [hafter, Build.ran_bind, Build.ran_pure] at hr
    obtain ⟨_, _, -, rfl, -⟩ := hr
    exact .nil hsame
  | none =>
    simp only [hafter] at hr
    split at hr
    · obtain ⟨rfl, -⟩ := Build.ran_pure.1 hr
      exact .nil hsame
    · simp only [Build.ran_bind, Build.ran_pure] at hr
      obtain ⟨_, _, -, rfl, -⟩ := hr
      exact .nil hsame

/-- Only the last statement of a block adds arms. -/
theorem lowerStatements_arms {block position : Nat} {stmts : List Statement}
    {exit : Option Flo.BlockExit} (hr : (lowerStatements cx block position stmts).Ran s exit s') :
    Lists s (exit.elim [] Flo.BlockExit.arms) s' := by
  induction stmts generalizing s position exit with
  | nil =>
    obtain ⟨rfl, rfl⟩ := Build.ran_pure.1 hr
    exact .nil rfl
  | cons stmt rest ih =>
    simp only [lowerStatements, locate, Build.ran_bind, Build.ran_mapError] at hr
    obtain ⟨exit', s₁, hr₁, hr⟩ := hr
    split at hr₁
    · cases hr₁
    rename_i hlast
    have h₁ := lowerStatement_arms hr₁
    cases rest with
    | nil =>
      obtain ⟨rfl, rfl⟩ := Build.ran_pure.1 hr
      exact h₁
    | cons next rest =>
      have hterm : stmt.isTerminator = false := by simpa using hlast
      have hnone : exit' = none := lowerStatement_eq_none hterm hr₁
      rw [hnone] at h₁
      exact h₁.append (ih hr)

/-- The exit of a block lists the arms that were added for the block. -/
theorem lowerBlock_arms {index : Nat} {row : Flo.Block}
    (hr : (lowerBlock cx index).Ran s row s') : Lists s row.arms s' := by
  unfold lowerBlock at hr
  cases hblock : cx.function.block? index with
  | none => simp [hblock, locate] at hr
  | some block =>
    simp only [hblock, locate, Build.ran_bind, Build.ran_step] at hr
    obtain ⟨_, s₀, ⟨-, rfl⟩, exit, s₁, hr₁, hr⟩ := hr
    have h₁ : Lists s (exit.elim [] Flo.BlockExit.arms) s₁ :=
      (lowerStatements_arms hr₁).of_eq rfl
    cases exit with
    | some exit =>
      simp only [Build.ran_bind, Build.ran_pure, Build.ran_get] at hr
      obtain ⟨_, _, ⟨rfl, rfl⟩, _, _, ⟨rfl, rfl⟩, rfl, rfl⟩ := hr
      exact h₁
    | none =>
      simp only [Build.ran_bind, Build.ran_pure, Build.ran_get, Build.ran_mapError] at hr
      obtain ⟨exit, s₂, hfall, _, _, ⟨rfl, rfl⟩, rfl, rfl⟩ := hr
      exact h₁.append (fallThrough_arms hfall)

end Lowering

end GimpleLowering

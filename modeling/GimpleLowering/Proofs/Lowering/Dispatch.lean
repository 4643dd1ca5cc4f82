import GimpleLowering.Proofs.Lowering.Preservation
import GimpleLowering.Proofs.Lowering.SwitchFaults

/-!
# Where a switch goes

The exit of a block is a list of arms, and control goes on at the first one whose condition holds.
The arms of a switch come from its cases in their order, with one more for the default at the end.
Each condition is computed from the selector alone and lands in a temporary that later conditions
leave alone, so the conditions can be judged together when the last one is computed. As labels that
pass are disjoint, at most one of them holds, and the order does not matter.

## Main definitions

* `Flo.Object.branch` — where a list of arms goes
* `Lowering.Comparing` — routines that compare integers and conjoin truth values
* `Lowering.Dispatches` — code and arms that go where a switch goes

## Main results

* `Lowering.lowerSwitch_dispatches` — **a switch is malformed exactly if its labels are, and
  otherwise goes to the block of the one label that matches**
-/

namespace GimpleLowering

open Gimple Layout

/-! ### Arms -/

/-- Where control goes: to the block of the first arm whose condition holds. -/
def Flo.Object.branch (o : Flo.Object) (M : Flo.Machine) : List Nat → Outcome Nat
  | [] => .error .stuck
  | arm :: arms => do
    match o.matchArms.get? arm with
    | some ⟨condition, .here target, _, _, _⟩ =>
      match ← o.get M condition with
      | .truth true => return target
      | .truth false => branch o M arms
      | _ => .error .stuck
    | _ => .error .stuck

namespace Lowering

variable {P : Setting} {ps : Polyfills} {w : State} {R : Runtime} {M M' : Flo.Machine}
  {typ : Flo.Ty} {v : Int}

theorem IsArm.branch_cons {arm condition target : Nat} (h : IsArm w arm condition target)
    {p : Prop} [Decidable p] (hc : w.draft.object.get M condition = .ok (.truth p))
    (arms : List Nat) :
    w.draft.object.branch M (arm :: arms) =
      if p then .ok target else w.draft.object.branch M arms := by
  obtain ⟨location, hrow, -⟩ := h
  have hrow : w.draft.object.matchArms.get? arm =
      some ⟨condition, .here target, .usable, [], location⟩ := by
    rw [Flo.Table.get?_eq_rows]
    exact hrow
  rw [Flo.Object.branch, hrow]
  simp only [hc]
  by_cases hp : p
  · simp only [hp, decide_true, if_true]
    rfl
  · simp only [hp, decide_false, if_false]
    rfl

/-- Arms for labels are followed by the one for the default. -/
theorem branch_append_default {cases : List (Case × Nat)} {ids : List Nat} {last condition default
    m : Nat} (hids : List.Forall₂ (fun p arm => ∃ condition, IsArm w arm condition p.2 ∧
      Settled w m M condition (.truth (p.1.Matches v))) cases ids)
    (hlast : IsArm w last condition default)
    (hc : w.draft.object.get M condition = .ok (.truth true)) :
    w.draft.object.branch M (ids ++ [last]) =
      .ok (((cases.find? fun p => p.1.Matches v).map Prod.snd).getD default) := by
  induction hids with
  | nil =>
    have hc : w.draft.object.get M condition = .ok (.truth True) := by
      rw [hc, decide_true]
    rw [List.nil_append, hlast.branch_cons hc, if_pos trivial]
    rfl
  | @cons p arm cases ids hp _ ih =>
    obtain ⟨condition', harm, hs⟩ := hp
    rw [List.cons_append, harm.branch_cons hs.get, List.find?_cons]
    by_cases hv : p.1.Matches v
    · simp [hv]
    · simp [hv, ih]

/-- The arms for labels go to the images of their blocks. -/
theorem target?_find? {cases : List Case} {targets : List Nat} {default target : Nat}
    (ht : cases.map (fun c => w.target? c.block) = targets.map some)
    (hd : w.target? default = some target) :
    w.target? (((cases.find? fun c => c.Matches v).map Case.block).getD default) =
      some ((((cases.zip targets).find? fun p => p.1.Matches v).map Prod.snd).getD target) := by
  induction cases generalizing targets with
  | nil => exact hd
  | cons c cases ih =>
    cases targets with
    | nil => simp at ht
    | cons id ids =>
      simp only [List.map_cons, List.cons.injEq] at ht
      rw [List.zip_cons_cons, List.find?_cons, List.find?_cons]
      by_cases hv : c.Matches v
      · simp [hv, ht.1]
      · simp [hv, ih ht.2]

/-! ### Conditions -/

/-- The routines that compare integers of the runtime type do so by their values, and the routine
for conjunction conjoins. -/
structure Comparing (R : Runtime) (ps : Polyfills) (typ : Flo.Ty) : Prop where
  eq : ∀ {routine : String}, ps.forOperation? .eq [typ, typ] .bool = some routine →
    ∀ a b : Int, R.routine routine [.integer a, .integer b] = .truth (a = b)
  ge : ∀ {routine : String}, ps.forOperation? .ge [typ, typ] .bool = some routine →
    ∀ a b : Int, R.routine routine [.integer a, .integer b] = .truth (b ≤ a)
  le : ∀ {routine : String}, ps.forOperation? .le [typ, typ] .bool = some routine →
    ∀ a b : Int, R.routine routine [.integer a, .integer b] = .truth (a ≤ b)
  and : ∀ {routine : String}, ps.forOperation? .truthAnd [.bool, .bool] .bool = some routine →
    ∀ p q : Bool, R.routine routine [.truth p, .truth q] = .truth (p && q)

/-- The condition of a label holds if the label matches. -/
theorem Verdict.eq_matches {c : Case} {result : Value}
    (h : Verdict R ps typ c (.integer v) result) (hR : Comparing R ps typ) :
    result = .truth (c.Matches v) := by
  cases h with
  | single isSingle isEq =>
    rw [hR.eq isEq]
    congr 2
    simp only [Case.Matches, eq_iff_iff]
    omega
  | range isRange isGe isLe isAnd =>
    rw [hR.ge isGe, hR.le isLe, hR.and isAnd, ← Bool.decide_and]
    rfl

/-! ### Selectors -/

/-- What was read is in a temporary that is not used again, or in a variable with a name. -/
theorem Reads.kept {x : UnitIndex} {e : Expr} {n u m : Nat} {code : List Flo.Statement}
    (h : Reads x w e n u code m) (hw : w.Inv P) : u < m ∨ ¬ IsTemp w u := by
  cases h with
  | constant => exact .inl (Nat.lt_succ_self _)
  | named le mem agrees => exact .inr (hw.not_isTemp mem)
  | through => exact .inl (Nat.lt_succ_self _)
  | part direct isSlot =>
    exact .inl (Nat.add_lt_add_left (isSlot.laidOut.length_eq ▸ isSlot.index_lt) _)
  | deref => exact .inl (Nat.lt_succ_self _)
  | element => exact .inl (Nat.lt_succ_self _)

/-- A variable with a name is read in place. -/
theorem Reads.of_named {x : UnitIndex} {ty : Ty} {name : String} {n u m : Nat}
    {code : List Flo.Statement} (h : Reads x w (.named ty name) n u code m) :
    code = [] ∧ ∃ v ∈ w.scope, v.id = u := by
  generalize he : Expr.named ty name = e at h
  cases h with
  | constant isConstant =>
    subst he
    cases isConstant
  | named le mem agrees => exact ⟨rfl, _, mem, rfl⟩
  | _ => cases he

/-! ### Switches -/

/-- In the state `w`, the code first reads the selector. Where it has read an integer, it goes on
to its end without changing anything but temporaries, and the arms then go to the block for the
label that the switch goes to, however the cases are ordered. -/
def Dispatches (x : UnitIndex) (ps : Polyfills) (typ : Flo.Ty) (w : State) (value : Expr)
    (cases : List Case) (default n : Nat) (code : List Flo.Statement) (arms : List Nat) : Prop :=
  ∃ selector k reading testing, code = reading ++ testing ∧
    Reads x w value n selector reading k ∧
    ∀ R : Runtime, Comparing R ps typ → ∀ (M M₁ : Flo.Machine) (v : Int),
      w.draft.object.execAll R M reading = .ok M₁ →
      w.draft.object.get M₁ selector = .ok (.integer v) →
      ∃ M' label target, w.draft.object.execAll R M code = .ok M' ∧ Unchanged w k M₁ M' ∧
        w.draft.object.branch M' arms = .ok target ∧ w.target? label = some target ∧
        ∀ cases' : List Case, cases'.Perm cases → Chooses cases' default v label

theorem Leaves.dispatches {value : Expr} {cases : List Case} {default n m : Nat}
    {line : Option Nat} {code : List Flo.Statement} {exit : Flo.BlockExit}
    (h : Leaves P ps w (.switch value cases default line) n code exit m) (hw : w.Inv P)
    (htyp : ∀ typ', HasValueType P.index w.types value.ty typ' → typ' = typ) :
    ∃ arms, exit = .branch arms ∧
      Dispatches P.index ps typ w value cases default n code arms := by
  cases h with
  | @switch _ _ _ _ typ' targets ids target last _ u k m reading testing note integral selectorType
      valid areTargets isDefault read areArms otherwise isLast noted =>
    obtain rfl := htyp typ' selectorType
    refine ⟨_, rfl, u, k, reading, testing ++ [.assignConst m (.ofBool true) note],
      List.append_assoc _ _ _, read, fun R hR M M₁ v hread hget => ?_⟩
    have hs : Settled w k M₁ u (.integer v) := ⟨read.kept hw, hget⟩
    obtain ⟨hle, M₂, hM₂, hu, hall⟩ := IsFunction.arms (R := R) areArms hs
    obtain ⟨M₃, hM₃, hu', hlast⟩ :=
      IsFunction.execAll_constant (R := R) otherwise value?_ofBool_true M₂ note
    have hids : List.Forall₂ (fun (p : Case × Nat) arm => ∃ condition,
        IsArm w arm condition p.2 ∧ Settled w m M₃ condition (.truth (p.1.Matches v)))
        (cases.zip targets) ids := by
      refine hall.imp fun p arm hp => ?_
      obtain ⟨condition, result, harm, hverdict, hresult⟩ := hp
      exact ⟨condition, harm, hverdict.eq_matches hR ▸ hresult.mono hu' (Nat.le_refl m)⟩
    have hproper : Proper typ' cases := ((validateCases_eq_ok_iff (by simp)).1 valid).1
    refine ⟨M₃, _, _, ?_, hu.trans (hu'.mono hle), branch_append_default hids isLast hlast.get,
      target?_find? areTargets isDefault, fun cases' hp => (hproper.chooses default v).perm hp⟩
    rw [List.append_assoc, Flo.Object.execAll_append, hread]
    change w.draft.object.execAll R M₁ _ = _
    rw [Flo.Object.execAll_append, hM₂]
    exact hM₃

/-- The runtime type of an integer type is the one that there is for its width. -/
theorem eq_of_integerTyp? {x : UnitIndex} {types : Registry} {ty : Ty} {typ' : Flo.Ty}
    (h : ty.integerTyp? = some typ) (ht : HasValueType x types ty typ') : typ' = typ := by
  obtain ⟨rep, hrep, rfl⟩ := ht
  unfold Ty.integerTyp? at h
  split at h
  · obtain rfl := Option.some.inj h
    cases hrep with
    | integer32 => rfl
    | record isRecord => cases isRecord
    | recordHandle indirect | cell indirect => cases indirect
  · obtain rfl := Option.some.inj h
    cases hrep with
    | integer64 => rfl
    | record isRecord => cases isRecord
    | recordHandle indirect | cell indirect => cases indirect
  · cases h

/-- A switch on an integer of a width that the runtime has, or on something that is no integer, is
malformed exactly if it is on no integer or if its labels are faulty, and then nothing has
happened to the state. When it is lowered between steps of a function, its code and its arms go
where the switch goes, in that state and in all later ones. -/
theorem lowerSwitch_dispatches (cx : Context) (s : State) (value : Expr) (cases : List Case)
    (default : Nat)
    (supported : value.ty.isIntegral = true → value.ty.integerTyp? = some typ) :
    ((∃ fault s', (lowerSwitch cx value cases default).Fails s (.malformedSwitch fault) s') ↔
      value.ty.isIntegral = false ∨ Faulty typ cases) ∧
    (∀ fault s', (lowerSwitch cx value cases default).Fails s (.malformedSwitch fault) s' →
      s' = s) ∧
    (cx.LineKnown → s.Inv (cx.setting fun _ => True) → ∀ exit s',
      (lowerSwitch cx value cases default).Ran s exit s' →
      ∃ arms code, exit = .branch arms ∧
        Emits (cx.setting fun _ => True) s code (cases.map Case.block ++ [default]) s' ∧
        ∀ w : State, s'.Grows w → w.Inv (cx.setting fun _ => True) →
          Dispatches cx.index cx.polyfills typ w value cases default s.vars.length code arms) := by
  refine ⟨?_, fun fault s' h => ((lowerSwitch_fails_iff supported).1 h).1,
    fun hl hs exit s' hr => ?_⟩
  · simp only [lowerSwitch_fails_iff supported, ← validateCases_eq_error_iff value]
    cases value.ty.isIntegral with
    | false => simp
    | true => simp
  · have hint : value.ty.isIntegral = true := by
      unfold lowerSwitch at hr
      split at hr
      · simp at hr
      · rename_i hint
        simpa using hint
    have htyp : ∀ (w : State) typ', HasValueType cx.index w.types value.ty typ' → typ' = typ :=
      fun w typ' ht => eq_of_integerTyp? (supported hint) ht
    obtain ⟨code, he, hleaves⟩ : ∃ code,
        Emits (cx.setting fun _ => True) s code (cases.map Case.block ++ [default]) s' ∧
          ∀ w, s'.Grows w → Leaves (cx.setting fun _ => True) cx.polyfills w
            (.switch value cases default none) s.vars.length code exit s'.vars.length :=
      lowerSwitch_ran (.univ cx.index) hl (fun _ _ => trivial) hs hr
    obtain ⟨arms, rfl, -⟩ := (hleaves s' (.refl s')).dispatches he.inv (htyp s')
    refine ⟨arms, code, rfl, he, fun w hw hinv => ?_⟩
    obtain ⟨arms', harms, hdispatches⟩ := (hleaves w hw).dispatches hinv (htyp w)
    obtain rfl := Flo.BlockExit.branch.inj harms
    exact hdispatches

/-- The routines of a runtime that can compare 32-bit integers and nothing else. -/
def comparisons : Polyfills :=
  .ofList [("eq_expr(i32, i32)", "eq"), ("ge_expr(i32, i32)", "ge"), ("le_expr(i32, i32)", "le"),
    ("truth_and_expr(bool, bool)", "and")]

/-- The runtime with these routines. -/
def comparingRuntime : Runtime where
  routine name values :=
    match values with
    | [.integer a, .integer b] =>
      if name = "eq" then .truth (a = b) else if name = "ge" then .truth (b ≤ a) else .truth (a ≤ b)
    | [.truth p, .truth q] => .truth (p && q)
    | _ => .null
  function _ _ memory := .ok ([], memory)

theorem comparing_comparingRuntime : Comparing comparingRuntime comparisons .signed32 where
  eq {routine} h a b := by
    obtain rfl : "eq" = routine := Option.some.inj (Eq.trans (by decide +kernel) h)
    rfl
  ge {routine} h a b := by
    obtain rfl : "ge" = routine := Option.some.inj (Eq.trans (by decide +kernel) h)
    rfl
  le {routine} h a b := by
    obtain rfl : "le" = routine := Option.some.inj (Eq.trans (by decide +kernel) h)
    rfl
  and _ _ _ := rfl

/-- A function that tells apart one value and a range of others. -/
def sorting : Function :=
  ⟨"sort", [⟨"n", .integer 32⟩], none, 2, [],
    [⟨2, [.switch (.named (.integer 32) "n") [⟨1, none, 3⟩, ⟨5, some 9, 4⟩] 5 none]⟩,
      ⟨3, [.ret none none]⟩, ⟨4, [.ret none none]⟩, ⟨5, [.ret none none]⟩]⟩

/-- All variables are 7, which is in the range. -/
theorem lowerSwitch_dispatches_sorting :
    ∃ cx parameters entry s arms s' code,
      (prepare .empty comparisons sorting).Ran (.initial .empty "sort" "") (cx, parameters, entry) s ∧
      (lowerSwitch cx (.named (.integer 32) "n") [⟨1, none, 3⟩, ⟨5, some 9, 4⟩] 5).Ran s
        (.branch arms) s' ∧ Emits (cx.setting fun _ => True) s code [3, 4, 5] s' ∧
      ∃ M' target, s'.draft.object.execAll comparingRuntime
          ⟨fun _ => .integer 7, ⟨fun _ => .integer 7, fun _ => none⟩⟩ code = .ok M' ∧
        s'.draft.object.branch M' arms = .ok target ∧ s'.target? 4 = some target := by
  obtain ⟨⟨⟨cx, parameters, entry⟩, exit⟩, s', hran⟩ :
      ∃ p s', (do
        let p ← prepare .empty comparisons sorting
        let exit ← lowerSwitch p.1 (.named (.integer 32) "n") [⟨1, none, 3⟩, ⟨5, some 9, 4⟩] 5
        return (p, exit) : LowerM _).Ran (.initial .empty "sort" "") p s' :=
    Build.exists_ran_of_endsWell (by decide +kernel)
  simp only [Build.ran_bind, Build.ran_pure] at hran
  obtain ⟨p, s, hprepare, exit', s₁, hswitch, heq, rfl⟩ := hran
  obtain ⟨rfl, rfl⟩ := Prod.mk.inj heq
  obtain ⟨slot, vs, ls, hcx, -, -, -, -, -, -, hinv, -⟩ :=
    prepare_ran (.univ _) (by simp) (.empty _ _) hprepare
  subst hcx
  obtain ⟨-, -, hgoes⟩ := lowerSwitch_dispatches ⟨.empty, comparisons, sorting, slot, none⟩ s
    (.named (.integer 32) "n") [⟨1, none, 3⟩, ⟨5, some 9, 4⟩] 5
    fun _ => (rfl : (Ty.integer 32).integerTyp? = some .signed32)
  obtain ⟨arms, code, rfl, he, hall⟩ := hgoes (fun _ h => by cases h) hinv _ _ hswitch
  obtain ⟨selector, k, reading, testing, rfl, hreads, hdecides⟩ := hall s' (.refl s') he.inv
  obtain ⟨rfl, v, mem, rfl⟩ := hreads.of_named
  have hget : s'.draft.object.get
      ⟨fun _ => .integer 7, ⟨fun _ => .integer 7, fun _ => none⟩⟩ v.id = .ok (.integer 7) := by
    obtain ⟨row, hrow, -, hlink, -⟩ := (he.inv.holds v mem).row
    unfold Flo.Object.get
    rw [linkage?_eq, hrow, Option.map_some, hlink]
    cases v.usage <;> rfl
  obtain ⟨M', label, target, hexec, -, hbranch, htarget, hchooses⟩ :=
    hdecides comparingRuntime comparing_comparingRuntime _ _ 7 rfl hget
  obtain rfl : label = 4 := by
    rcases hchooses _ (.refl _) with ⟨c, hc, rfl⟩ | ⟨hnone, -⟩
    · obtain rfl : (⟨5, some 9, 4⟩ : Case) = c := (List.cons.inj hc).1
      rfl
    · exact absurd (by decide) (hnone ⟨5, some 9, 4⟩ (by simp))
  exact ⟨_, _, _, s, arms, s', _, hprepare, hswitch, he, M', target, hexec, hbranch, htarget⟩

end Lowering

end GimpleLowering

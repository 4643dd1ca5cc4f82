import GimpleLowering.Lowering.Function
import GimpleLowering.Proofs.Gimple.Occurrence
import GimpleLowering.Proofs.Lowering.Scope

/-!
# The variables of a function

Before its blocks, a function gets its parameters, a variable for its result, and its local
variables. What its blocks return is known from then on.

## Main definitions

* `Lowering.Declares` — the variables for declarations

## Main results

* `Gimple.Function.validate_eq_ok` — a valid function has an entry other than the exit
* `Lowering.declareVariables_ran` — the variables in scope are those that are declared
-/

namespace GimpleLowering

open Gimple Layout

/-! ### Valid functions -/

namespace Gimple.Function

theorem firstBadIndex_eq_ok {name : String} {seen : List Nat} {blocks : List Block}
    (h : firstBadIndex name seen blocks = .ok ()) :
    (∀ b ∈ blocks, b.index ≠ exitIndex ∧ b.index ∉ seen) ∧
      (blocks.map Block.index).Nodup := by
  induction blocks generalizing seen with
  | nil => simp
  | cons b rest ih =>
    unfold firstBadIndex at h
    split at h
    · cases h
    rename_i hexit
    split at h
    · cases h
    rename_i hseen
    obtain ⟨hrest, hnodup⟩ := ih h
    refine ⟨fun c hc => ?_, List.nodup_cons.2 ⟨fun hmem => ?_, hnodup⟩⟩
    · rcases List.mem_cons.1 hc with rfl | hc
      · exact ⟨hexit, hseen⟩
      · exact ⟨(hrest c hc).1, fun hmem => (hrest c hc).2 (List.mem_cons_of_mem _ hmem)⟩
    · obtain ⟨c, hc, heq⟩ := List.mem_map.1 hmem
      exact (hrest c hc).2 (heq ▸ List.mem_cons_self)

/-- A valid function has an entry, and no block of it stands for leaving the function. -/
theorem validate_eq_ok {f : Function} (h : f.validate = .ok ()) :
    (∀ b ∈ f.blocks, b.index ≠ exitIndex) ∧ (f.blocks.map Block.index).Nodup ∧
      (f.block? f.entryBlock).isSome ∧ f.entryBlock ≠ exitIndex := by
  unfold validate at h
  cases hbad : firstBadIndex f.name [] f.blocks with
  | error e => simp [hbad, bind, Except.bind] at h
  | ok u =>
    obtain ⟨hblocks, hnodup⟩ := firstBadIndex_eq_ok hbad
    have hentry : (f.block? f.entryBlock).isSome := by
      by_contra hnone
      have hnone : (f.block? f.entryBlock).isNone := by simpa using hnone
      simp [hbad, bind, Except.bind, hnone] at h
    refine ⟨fun b hb => (hblocks b hb).1, hnodup, hentry, fun heq => ?_⟩
    obtain ⟨b, hb⟩ := Option.isSome_iff_exists.1 hentry
    have hindex : b.index = f.entryBlock := by simpa using List.find?_some hb
    exact (hblocks b (List.mem_of_find?_eq_some hb)).1 (hindex.trans heq)

end Gimple.Function

namespace Lowering

variable {P : Setting} {s s' : State} {x : UnitIndex} {S : Ty → Prop} {f : Function}

/-! ### Declarations -/

/-- The variables for declarations, in their order. -/
def Declares (usage : Usage) (ds : List Declaration) (vs : List Var) : Prop :=
  vs.map (fun v => (⟨v.name, v.ty⟩ : Declaration)) = ds ∧ ∀ v ∈ vs, v.usage = usage

theorem Declares.nil (usage : Usage) : Declares usage [] [] := ⟨rfl, by simp⟩

theorem Declares.cons {usage : Usage} {d : Declaration} {ds : List Declaration} {v : Var}
    {vs : List Var} (h : Declares usage ds vs) (hname : v.name = d.name) (hty : v.ty = d.ty)
    (hu : v.usage = usage) : Declares usage (d :: ds) (v :: vs) := by
  refine ⟨by rw [List.map_cons, hname, hty, h.1], fun u hu' => ?_⟩
  rcases List.mem_cons.1 hu' with rfl | hu'
  · exact hu
  · exact h.2 u hu'

/-- The variables that the function declares are in scope, before all others. -/
def State.HasVariables (s : State) (f : Function) : Prop :=
  ∃ parameters locals, Declares .parameter f.parameters parameters ∧
    Declares .automatic f.locals locals ∧ parameters ++ locals <+: s.scope

theorem State.HasVariables.mono {f : Function} (h : s.HasVariables f) (hg : s.Grows s') :
    s'.HasVariables f := by
  obtain ⟨parameters, locals, hparameters, hlocals, hscope⟩ := h
  exact ⟨parameters, locals, hparameters, hlocals, hscope.trans hg.scope⟩

theorem declareParameters_ran (hx : P.index.Closed P.types) (h : s.Inv P) {function : String}
    {usage : Usage} {ds : List Declaration}
    (hds : ∀ d ∈ ds, P.types d.ty ∧ Declared P d.name d.ty usage) {ids : List Nat}
    (hr : (ds.mapM fun d => do
      return (← declare P.index function none d.name d.ty usage).id : LowerM (List Nat)).Ran s
        ids s') :
    ∃ vs, Emits P s [] [] s' ∧ Declares usage ds vs ∧ s'.scope = s.scope ++ vs ∧
      ids = vs.map Var.id := by
  induction ds generalizing s ids with
  | nil =>
    obtain ⟨rfl, rfl⟩ := Build.ran_mapM_nil.1 hr
    exact ⟨[], .refl h, .nil usage, by simp, rfl⟩
  | cons d ds ih =>
    obtain ⟨id, s₁, rest, hd, hrest, rfl⟩ := Build.ran_mapM_cons.1 hr
    simp only [Build.ran_bind, Build.ran_pure] at hd
    obtain ⟨v, _, hd, rfl, rfl⟩ := hd
    obtain ⟨hS, hdecl⟩ := hds d (by simp)
    obtain ⟨he, -, hname, hty, hu, -, -, hscope, -⟩ :=
      declare_ran hx (by simp) h hS hdecl hd
    obtain ⟨vs, hes, hvs, hscopes, rfl⟩ := ih he.inv (fun e he => hds e (by simp [he])) hrest
    refine ⟨v :: vs, he.trans_nil hes, hvs.cons hname hty hu, ?_, rfl⟩
    rw [hscopes, hscope, List.append_assoc, List.singleton_append]

theorem declareLocals_ran (hx : P.index.Closed P.types) (h : s.Inv P) {function : String}
    {usage : Usage} {ds : List Declaration}
    (hds : ∀ d ∈ ds, P.types d.ty ∧ Declared P d.name d.ty usage)
    (hr : (ds.forM fun d => do
      let _ ← declare P.index function none d.name d.ty usage : LowerM PUnit).Ran s ⟨⟩ s') :
    ∃ vs, Emits P s [] [] s' ∧ Declares usage ds vs ∧ s'.scope = s.scope ++ vs := by
  induction ds generalizing s with
  | nil =>
    obtain rfl := Build.ran_forM_nil.1 hr
    exact ⟨[], .refl h, .nil usage, by simp⟩
  | cons d ds ih =>
    obtain ⟨s₁, hd, hrest⟩ := Build.ran_forM_cons.1 hr
    simp only [Build.ran_bind, Build.ran_pure] at hd
    obtain ⟨v, _, hd, -, rfl⟩ := hd
    obtain ⟨hS, hdecl⟩ := hds d (by simp)
    obtain ⟨he, -, hname, hty, hu, -, -, hscope, -⟩ :=
      declare_ran hx (by simp) h hS hdecl hd
    obtain ⟨vs, hes, hvs, hscopes⟩ := ih he.inv (fun e he => hds e (by simp [he])) hrest
    refine ⟨v :: vs, he.trans_nil hes, hvs.cons hname hty hu, ?_⟩
    rw [hscopes, hscope, List.append_assoc, List.singleton_append]

/-! ### The result -/

/-- The variable for the result is known when it is made. -/
theorem State.Inv.withResult (h : s.Inv ⟨x, f, [], S⟩) (he : s.exitBlock = none) {id : Nat}
    (hid : HoldsResult ⟨x, f, [id], S⟩ s id) (hfresh : ∀ v ∈ s.scope, v.id < id) :
    s.Inv ⟨x, f, [id], S⟩ := by
  refine ⟨h.sound, h.names, ?_, fun v hv => ?_, fun i hi => ?_, h.typed, h.kept, ?_⟩
  · refine List.nodup_cons.2 ⟨fun hmem => ?_, h.ids⟩
    obtain ⟨v, hv, heq⟩ := List.mem_map.1 hmem
    exact Nat.lt_irrefl id (heq ▸ hfresh v hv)
  · obtain ⟨⟨hocc, hrep, hrow⟩, hdecl⟩ := h.holds v hv
    exact ⟨⟨hocc, hrep, hrow⟩, hdecl⟩
  · obtain rfl := List.mem_singleton.1 hi
    exact hid
  · obtain ⟨hlabels, hdecl, hids, hpos, -⟩ := h.planned
    exact ⟨hlabels, hdecl, hids, hpos, fun id hid => by simp [he] at hid⟩

/-- A run that branches to nothing leaves the blocks and the exit as they are. -/
theorem Emits.blocks_eq {code : List Flo.Statement} (h : Emits P s code [] s') :
    s'.blocks = s.blocks ∧ s'.pending = s.pending ∧ s'.exitBlock = s.exitBlock := by
  obtain ⟨new, hb, hp, hnew⟩ := h.schedules.blocks
  obtain rfl := List.eq_nil_iff_forall_not_mem.2 fun p hp => List.not_mem_nil (hnew p hp)
  exact ⟨by simpa using hb, by simpa using hp, h.schedules.exitBlock.resolve_right (by simp)⟩

theorem declareResult_ran (hx : x.Closed S) (hS : ∀ ty ∈ f.returnType, S ty)
    (h : s.Inv ⟨x, f, [], S⟩) (he : s.exitBlock = none) {slot : Option Nat}
    (hr : (f.returnType.mapM fun ty => do
      return (← create x none returnSlotName ty .returnSlot).id : LowerM (Option Nat)).Ran s
        slot s') :
    s'.Inv ⟨x, f, slot.toList, S⟩ ∧ slot.isSome = f.returnType.isSome ∧ s'.scope = s.scope ∧
      Emits ⟨x, f, [], S⟩ s [] [] s' := by
  cases hret : f.returnType with
  | none =>
    rw [hret] at hr
    obtain ⟨rfl, rfl⟩ := Build.ran_pure.1 hr
    exact ⟨h, rfl, rfl, .refl h⟩
  | some ty =>
    rw [hret] at hr
    have hr : ((do
        let id ← (do return (← create x none returnSlotName ty .returnSlot).id : LowerM Nat)
        return some id : LowerM (Option Nat))).Ran s slot s' := hr
    simp only [Build.ran_bind, Build.ran_pure] at hr
    obtain ⟨_, _, ⟨v, _, hc, rfl, rfl⟩, rfl, rfl⟩ := hr
    obtain ⟨hem, hv, hname, hty, hu, hid, -, hscope⟩ :=
      create_ran (P := ⟨x, f, [], S⟩) hx (by simp) h (hS ty hret) (by simp) (by simp) hc
    obtain ⟨row, hrow, htyp, hlink, hdiag⟩ := hv.row
    have hresult : HoldsResult ⟨x, f, [v.id], S⟩ s' v.id := by
      refine ⟨ty, v.representation, row, hret, hty ▸ hv.represents, hrow, htyp, ?_, hdiag⟩
      simp [hlink, linkageOf, hu]
    have hfresh : ∀ u ∈ s'.scope, u.id < v.id := fun u hmem => by
      rw [hid]
      exact (h.holds u (hscope ▸ hmem)).lt_length
    have hexit : s'.exitBlock = none := hem.blocks_eq.2.2.trans he
    exact ⟨hem.inv.withResult hexit hresult hfresh, rfl, hscope, hem⟩

/-! ### All variables -/

/-- The variables in scope are those that are declared. -/
theorem declareVariables_ran (hx : x.Closed S) (hS : ∀ ty ∈ f.types, S ty)
    (h : s.Inv ⟨x, f, [], S⟩) (hscope : s.scope = []) (he : s.exitBlock = none)
    {parameters : List Nat} {slot : Option Nat}
    (hr : (declareVariables x f).Ran s (parameters, slot) s') :
    ∃ ps ls, slot.isSome = f.returnType.isSome ∧ parameters = ps.map Var.id ∧
      Declares .parameter f.parameters ps ∧ Declares .automatic f.locals ls ∧
      s'.scope = ps ++ ls ∧ s'.Inv ⟨x, f, slot.toList, S⟩ ∧ s.Grows s' ∧
      s'.statements = s.statements ∧ s'.blocks = s.blocks ∧ s'.pending = s.pending ∧
      s'.exitBlock = none := by
  simp only [Function.types, Signature.types, Function.signature, List.mem_append] at hS
  simp only [declareVariables, Build.ran_bind, Build.ran_pure, Prod.mk.injEq] at hr
  obtain ⟨ids, s₁, hps, slot, s₂, hslot, _, s₃, hls, ⟨rfl, rfl⟩, rfl⟩ := hr
  obtain ⟨ps, he₁, hdps, hscope₁, rfl⟩ := declareParameters_ran (P := ⟨x, f, [], S⟩) hx h
    (fun d hd => ⟨hS _ (.inl (.inl (.inl (List.mem_map_of_mem hd)))),
      show Declared _ d.name d.ty .parameter from hd⟩) hps
  have hexit₁ : s₁.exitBlock = none := he₁.blocks_eq.2.2.trans he
  obtain ⟨hinv₂, hsome, hscope₂, he₂⟩ := declareResult_ran hx
    (fun ty hty => hS ty (.inl (.inl (.inr (by simpa using hty))))) he₁.inv hexit₁ hslot
  obtain ⟨ls, he₃, hdls, hscope₃⟩ := declareLocals_ran (P := ⟨x, f, slot.toList, S⟩) hx hinv₂
    (fun d hd => ⟨hS _ (.inl (.inr (List.mem_map_of_mem hd))),
      show Declared _ d.name d.ty .automatic from hd⟩) hls
  obtain ⟨hb₁, hp₁, -⟩ := he₁.blocks_eq
  obtain ⟨hb₂, hp₂, hx₂⟩ := he₂.blocks_eq
  obtain ⟨hb₃, hp₃, hx₃⟩ := he₃.blocks_eq
  have hst₁ := he₁.statements
  have hst₂ := he₂.statements
  have hst₃ := he₃.statements
  rw [List.append_nil] at hst₁ hst₂ hst₃
  exact ⟨ps, ls, hsome, rfl, hdps, hdls, by rw [hscope₃, hscope₂, hscope₁, hscope, List.nil_append],
    he₃.inv, (he₁.grows.trans he₂.grows).trans he₃.grows, (hst₃.trans hst₂).trans hst₁,
    (hb₃.trans hb₂).trans hb₁, (hp₃.trans hp₂).trans hp₁, (hx₃.trans hx₂).trans hexit₁⟩

end Lowering

end GimpleLowering

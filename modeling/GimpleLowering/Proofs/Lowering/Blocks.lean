import GimpleLowering.Proofs.Lowering.Lines

/-!
# The code of blocks

A block is lowered statement by statement. Its code is the codes of its statements one after the
other, and its exit is that of its last statement, or else the place where control falls through
to.

## Main definitions

* `Lowering.LowersAll` — the codes of the statements of a block, and the exit of the last one
* `Lowering.EmitsAll` — all that is emitted for them, with its variables and arms
* `Lowering.Exits` — the exit of a block
* `Lowering.IsBlock` — the block for a label

## Main results

* `Lowering.lowerBlock_ran` — a block is lowered to its code, and branches to its successors
-/

namespace GimpleLowering.Lowering

open Gimple Layout

/-! ### Descriptions -/

/-- The codes of statements, one for each of them. Only the last one can have an exit. -/
inductive LowersAll (P : Setting) (ps : Polyfills) (w : State) :
    List Statement → Nat → List (List Flo.Statement) → Option Flo.BlockExit → Nat → Prop where
  | nil (n : Nat) : LowersAll P ps w [] n [] none n
  | leave {stmt : Statement} {n m : Nat} {code : List Flo.Statement} {exit : Flo.BlockExit}
      (leaves : Leaves P ps w stmt n code exit m) :
      LowersAll P ps w [stmt] n [code] (some exit) m
  | perform {stmt : Statement} {rest : List Statement} {n k m : Nat} {code : List Flo.Statement}
      {codes : List (List Flo.Statement)} {exit : Option Flo.BlockExit}
      (performs : Performs P ps w stmt n code k) (others : LowersAll P ps w rest k codes exit m) :
      LowersAll P ps w (stmt :: rest) n (code :: codes) exit m

/-- The emissions for statements, one for each of them. The variables of each are numbered from
those of the one before. -/
inductive EmitsAll (P : Setting) (ps : Polyfills) (w : State) :
    List Statement → Nat → List Flo.Emission → Option Flo.BlockExit → Nat → Prop where
  | nil (n : Nat) : EmitsAll P ps w [] n [] none n
  | leave {stmt : Statement} {n m : Nat} {e : Flo.Emission} {exit : Flo.BlockExit}
      (last : IsEmission P ps w stmt n e (some exit) m) : EmitsAll P ps w [stmt] n [e] (some exit) m
  | perform {stmt : Statement} {rest : List Statement} {n k m : Nat} {e : Flo.Emission}
      {es : List Flo.Emission} {exit : Option Flo.BlockExit}
      (first : IsEmission P ps w stmt n e none k) (others : EmitsAll P ps w rest k es exit m) :
      EmitsAll P ps w (stmt :: rest) n (e :: es) exit m

/-- The exit of the block with the given index, from that of its last statement. Without one,
control falls through to the next block, and from the last block out of the function. -/
inductive Exits (P : Setting) (w : State) (index : Nat) :
    Option Flo.BlockExit → Flo.BlockExit → Prop where
  | leave {exit : Flo.BlockExit} : Exits P w index (some exit) exit
  | next {b : Block} {target : Nat} (after : P.function.blockAfter? index = some b)
      (isTarget : w.target? b.index = some target) : Exits P w index none (.goto target)
  | finish (after : P.function.blockAfter? index = none)
      (isVoid : P.function.returnType = none) : Exits P w index none (.ret [])
  | missing (after : P.function.blockAfter? index = none)
      (result : P.function.returnType ≠ none) :
      Exits P w index none (.panic missingReturnMessage [])

/-- The block for the label `index`, before it gets a signature. -/
structure IsBlock (P : Setting) (ps : Polyfills) (w : State) (index : Nat) (block : Block)
    (codes : List (List Flo.Statement)) (row : Flo.Block) : Prop where
  isBlock : P.function.block? index = some block
  emits : ∃ n es exit m, EmitsAll P ps w block.statements n es exit m ∧
    es.map Flo.Emission.code = codes ∧ Exits P w index exit row.exit
  body : row.statements.map (fun id => w.statements[id]?) = codes.flatten.map some
  signature : row.signature = none
  poison : row.poison = .usable
  diagnostics : row.diagnostics = []

variable {P : Setting} {ps : Polyfills} {s s' w w' : State} {cx : Context} {S : Ty → Prop}

theorem EmitsAll.lowersAll {stmts : List Statement} {n m : Nat} {es : List Flo.Emission}
    {exit : Option Flo.BlockExit} (h : EmitsAll P ps w stmts n es exit m) :
    LowersAll P ps w stmts n (es.map Flo.Emission.code) exit m := by
  induction h with
  | nil n => exact .nil n
  | leave last => exact .leave last.lowers
  | perform first _ ih => exact .perform first.lowers ih

/-- Only the last statement has arms, which are those of the exit. -/
theorem EmitsAll.arms {stmts : List Statement} {n m : Nat} {es : List Flo.Emission}
    {exit : Option Flo.BlockExit} (h : EmitsAll P ps w stmts n es exit m) :
    (exit.elim [] Flo.BlockExit.arms).map (fun id => w.arms[id]?) =
      (es.flatMap Flo.Emission.arms).map some := by
  induction h with
  | nil n => rfl
  | leave last => rw [List.flatMap_singleton, last.arms]
  | perform first _ ih =>
    rw [List.flatMap_cons, List.map_append, ← first.arms, ← ih]
    rfl

theorem IsBlock.lowers {index : Nat} {block : Block} {codes : List (List Flo.Statement)}
    {row : Flo.Block} (h : IsBlock P ps w index block codes row) :
    ∃ n exit m, LowersAll P ps w block.statements n codes exit m ∧
      Exits P w index exit row.exit := by
  obtain ⟨n, es, exit, m, hemits, rfl, hexits⟩ := h.emits
  exact ⟨n, exit, m, hemits.lowersAll, hexits⟩

theorem IsBlock.exists_code {index id : Nat} {block : Block} {codes : List (List Flo.Statement)}
    {row : Flo.Block} (h : IsBlock P ps w index block codes row) (hid : id ∈ row.statements) :
    ∃ s ∈ codes.flatten, w.statements[id]? = some s := by
  have hmem : w.statements[id]? ∈ codes.flatten.map some :=
    h.body ▸ List.mem_map_of_mem (f := fun id => w.statements[id]?) hid
  obtain ⟨s, hs, heq⟩ := List.mem_map.1 hmem
  exact ⟨s, hs, heq.symm⟩

theorem IsBlock.exists_id {index : Nat} {block : Block} {codes : List (List Flo.Statement)}
    {row : Flo.Block} (h : IsBlock P ps w index block codes row) {s : Flo.Statement}
    (hs : s ∈ codes.flatten) : ∃ id ∈ row.statements, w.statements[id]? = some s := by
  have hmem : some s ∈ row.statements.map fun id => w.statements[id]? :=
    h.body ▸ List.mem_map_of_mem hs
  exact List.mem_map.1 hmem

/-! ### Statements of a block -/

theorem targets_of_not_isTerminator {stmt : Statement} (h : stmt.isTerminator = false) :
    stmt.targets = [] := by
  cases stmt <;> first | rfl | cases h

/-- The labels that the last statement branches to. -/
def lastTargets (stmts : List Statement) : List Nat :=
  (stmts.getLast?.map Statement.targets).getD []

/-- The statement occurs in the function, with its types and its line. -/
def Belongs (cx : Context) (S : Ty → Prop) (stmt : Statement) : Prop :=
  (∀ ty ∈ stmt.types, S ty) ∧ ∀ n, stmt.line = some n → cx.function.Mentions n

theorem lowerStatements_ran (hx : cx.index.Closed S) {block position : Nat}
    {stmts : List Statement} (hstmts : ∀ stmt ∈ stmts, Belongs cx S stmt)
    (h : s.Inv (cx.setting S)) {exit : Option Flo.BlockExit}
    (hr : (lowerStatements cx block position stmts).Ran s exit s') :
    exit.isSome = stmts.getLast?.any Statement.isTerminator ∧
      ∃ es : List Flo.Emission,
        Emits (cx.setting S) s (es.map Flo.Emission.code).flatten (lastTargets stmts) s' ∧
        ∀ w, s'.Grows w → EmitsAll (cx.setting S) cx.polyfills w stmts s.vars.length es exit
          s'.vars.length := by
  induction stmts generalizing s position exit with
  | nil =>
    obtain ⟨rfl, rfl⟩ := Build.ran_pure.1 hr
    exact ⟨rfl, [], .refl h, fun w _ => .nil _⟩
  | cons stmt rest ih =>
    simp only [lowerStatements, locate, Build.ran_bind, Build.ran_mapError] at hr
    obtain ⟨exit', s₁, hr₁, hr⟩ := hr
    have hlast : ¬ (stmt.isTerminator && !rest.isEmpty) := by
      intro hterm
      rw [if_pos hterm] at hr₁
      simp at hr₁
    rw [if_neg hlast] at hr₁
    obtain ⟨hS, hline⟩ := hstmts stmt (by simp)
    obtain ⟨hexit, e, he₁, hemits⟩ := lowerStatement_emits hx hline hS h hr₁
    cases rest with
    | nil =>
      obtain ⟨rfl, rfl⟩ := Build.ran_pure.1 hr
      refine ⟨hexit, [e], ?_, fun w hw => ?_⟩
      · simpa [lastTargets] using he₁
      · have hemit := hemits w hw
        cases exit with
        | none => exact .perform hemit (.nil _)
        | some exit => exact .leave hemit
    | cons next rest =>
      have hterm : stmt.isTerminator = false := by simpa using hlast
      obtain ⟨hexit', es, he, hrest⟩ := ih (fun t ht => hstmts t (by simp [ht])) he₁.inv hr
      have hnone : exit' = none := by simpa [hterm] using hexit
      refine ⟨by simpa using hexit', e :: es, ?_, fun w hw => ?_⟩
      · have hall := he₁.trans he
        rw [targets_of_not_isTerminator hterm] at hall
        simpa [lastTargets] using hall
      · have hemit := hemits w (he.grows.trans hw)
        rw [hnone] at hemit
        exact .perform hemit (hrest w hw)

/-! ### Blocks -/

theorem fallThrough_ran (h : s.Inv (cx.setting S)) {index : Nat} {exit : Flo.BlockExit}
    (hr : (fallThrough cx index).Ran s exit s') :
    Emits (cx.setting S) s [] ((cx.function.blockAfter? index).toList.map Block.index) s' ∧
      ∀ w, s'.Grows w → Exits (cx.setting S) w index none exit := by
  unfold fallThrough at hr
  cases hafter : cx.function.blockAfter? index with
  | some b =>
    simp only [hafter, Build.ran_bind, Build.ran_pure] at hr
    obtain ⟨id, _, hr, rfl, rfl⟩ := hr
    obtain ⟨ht, -, he⟩ := blockFor_ran h hr
    exact ⟨he, fun w hw => .next hafter (hw.target? ht)⟩
  | none =>
    simp only [hafter] at hr
    cases hret : cx.function.returnType with
    | none =>
      simp only [hret, Option.isNone_none, if_true, Build.ran_pure] at hr
      obtain ⟨rfl, rfl⟩ := hr
      exact ⟨.refl h, fun w _ => .finish hafter hret⟩
    | some ty =>
      simp only [hret, Option.isNone_some, Bool.false_eq_true, if_false, Build.ran_bind,
        Build.ran_pure] at hr
      obtain ⟨_, _, hr, rfl, rfl⟩ := hr
      exact ⟨(markPanic_ran h hr).2, fun w _ => .missing hafter (by simp [Context.setting, hret])⟩

/-- The body that is being emitted and the list of pending blocks do not matter between steps. -/
theorem State.Inv.of_eq (h : s.Inv P) (ht : s'.types = s.types) (hd : s'.draft = s.draft)
    (hs : s'.scope = s.scope) (hb : s'.blocks = s.blocks) (he : s'.exitBlock = s.exitBlock) :
    s.Grows s' ∧ s'.Inv P := by
  obtain ⟨types, draft, scope, blocks, exitBlock, pending, body, canPanic⟩ := s
  obtain ⟨types', draft', scope', blocks', exitBlock', pending', body', canPanic'⟩ := s'
  simp only at ht hd hs hb he
  subst ht hd hs hb he
  obtain ⟨sound, names, ids, holds, result, typed, kept, planned⟩ := h
  have hg : State.Grows ⟨types', draft', scope', blocks', exitBlock', pending, body, canPanic⟩
      ⟨types', draft', scope', blocks', exitBlock', pending', body', canPanic'⟩ :=
    ⟨.refl _, List.prefix_rfl, List.prefix_rfl, List.prefix_rfl, List.prefix_rfl,
      List.prefix_rfl, List.prefix_rfl, fun h => h⟩
  exact ⟨hg, sound, names, ids, fun v hv => (holds v hv).mono hg,
    fun id hid => (result id hid).mono hg, typed, kept, planned.of_eq rfl rfl rfl⟩

/-- The successors of a block are what its last statement branches to, or the next block. -/
theorem successors_eq {f : Function} {index : Nat} {block : Block}
    (h : f.block? index = some block) :
    f.successors index = lastTargets block.statements ++
      (if block.statements.getLast?.any Statement.isTerminator then []
        else (f.blockAfter? index).toList.map Block.index) := by
  unfold Function.successors lastTargets
  simp only [h]
  cases hlast : block.statements.getLast? with
  | none => simp
  | some stmt =>
    cases hterm : stmt.isTerminator with
    | true => simp [hterm]
    | false => simp [hterm, targets_of_not_isTerminator hterm]

/-- A block is lowered to its code, and branches to its successors. The temporaries of the code are
among the variables that it adds. -/
theorem lowerBlock_ran (hx : cx.index.Closed S)
    (hstmts : ∀ b ∈ cx.function.blocks, ∀ stmt ∈ b.statements, Belongs cx S stmt)
    (h : s.Inv (cx.setting S)) {index : Nat} {row : Flo.Block}
    (hr : (lowerBlock cx index).Ran s row s') :
    s.Grows s' ∧ s'.Inv (cx.setting S) ∧ Schedules (cx.function.successors index) s s' ∧
      ∃ block codes, s'.statements = s.statements ++ codes.flatten ∧
        row.statements = List.range' s.statements.length codes.flatten.length ∧
        ∀ w, s'.Grows w → IsBlock (cx.setting S) cx.polyfills w index block codes row ∧
          ∃ exit m, m ≤ s'.vars.length ∧ LowersAll (cx.setting S) cx.polyfills w block.statements
            s.vars.length codes exit m := by
  unfold lowerBlock at hr
  cases hblock : cx.function.block? index with
  | none => simp [hblock, locate] at hr
  | some block =>
    simp only [hblock, locate, Build.ran_bind, Build.ran_step] at hr
    obtain ⟨_, s₀, ⟨-, rfl⟩, exit, s₁, hr₁, hr⟩ := hr
    obtain ⟨hg₀, h₀⟩ : s.Grows { s with body := [] } ∧ State.Inv (cx.setting S)
        { s with body := [] } := h.of_eq rfl rfl rfl rfl rfl
    obtain ⟨hexit, es, he₁, hemits⟩ := lowerStatements_ran hx
      (hstmts block (List.mem_of_find?_eq_some hblock)) h₀ hr₁
    -- The exit comes from the last statement, or from falling through, which emits nothing.
    obtain ⟨exit', labels, hrow, hlabels, he₂, hexits⟩ : ∃ exit' labels,
        row = ⟨none, .usable, s'.body, exit', []⟩ ∧
        labels = (if block.statements.getLast?.any Statement.isTerminator then []
          else (cx.function.blockAfter? index).toList.map Block.index) ∧
        Emits (cx.setting S) s₁ [] labels s' ∧
        ∀ w, s'.Grows w → Exits (cx.setting S) w index exit exit' := by
      cases exit with
      | some exit =>
        simp only [Build.ran_bind, Build.ran_pure, Build.ran_get] at hr
        obtain ⟨_, _, ⟨rfl, rfl⟩, _, _, ⟨rfl, rfl⟩, rfl, rfl⟩ := hr
        exact ⟨_, [], rfl, by simp [← hexit], .refl he₁.inv, fun w _ => .leave⟩
      | none =>
        simp only [Build.ran_bind, Build.ran_pure, Build.ran_get, Build.ran_mapError] at hr
        obtain ⟨exit', s₂, hfall, _, _, ⟨rfl, rfl⟩, rfl, rfl⟩ := hr
        have h₁ : s₁.Inv (Context.setting { cx with
            line := block.statements.getLast?.bind Statement.line } S) := he₁.inv
        obtain ⟨he₂, hexits⟩ := fallThrough_ran h₁ hfall
        exact ⟨exit', _, rfl, by simp [← hexit], he₂, hexits⟩
    have he := he₁.append_labels he₂
    set codes := es.map Flo.Emission.code
    have hbody : s'.body = List.range' s.statements.length codes.flatten.length := by
      rw [he.body]
      simp
    subst hrow
    refine ⟨hg₀.trans he.grows, he.inv, ?_, block, codes, he.statements, hbody, fun w hw => ?_⟩
    · rw [successors_eq hblock, ← hlabels]
      exact ⟨he.schedules.blocks, he.schedules.order, he.schedules.exitBlock, he.schedules.rows,
        he.schedules.target⟩
    · have hemit := hemits w (he₂.grows.trans hw)
      refine ⟨⟨hblock, ⟨_, es, exit, _, hemit, rfl, hexits w hw⟩, ?_, rfl, rfl, rfl⟩,
        exit, _, he₂.grows.vars.length_le, hemit.lowersAll⟩
      have hrows : s.statements ++ codes.flatten <+: w.statements :=
        he.statements ▸ hw.statements
      rw [hbody, map_getElem?_range' hrows]

end GimpleLowering.Lowering

import GimpleLowering.Proofs.Lowering.Arms
import GimpleLowering.Proofs.Lowering.Panics
import GimpleLowering.Proofs.Lowering.Preparation
import Mathlib.Data.List.Nodup
import Mathlib.Data.List.Perm.Subperm

/-!
# The object of a function

The blocks of a function are lowered from a list of pending ones. The labels that were branched to
are at any time those whose blocks are filled in, followed by the pending ones, and the pending
list is empty in the end: a label is put on it once, and there are no more labels than blocks.

## Main definitions

* `Gimple.Function.Reaches` — the labels that control can get to
* `Lowering.Filled` — a label whose block is filled in
* `Lowering.Progress` — what holds between the blocks
* `Lowering.IsFunction` — the object of a function

## Main results

* `Lowering.lowerPending_ran` — in the end, the blocks of all labels are filled in
* `Lowering.lowerFunction_ran` — a function is lowered to its object
-/

namespace GimpleLowering

open Gimple Layout

/-- Control can get from the entry to the label. -/
inductive Gimple.Function.Reaches (f : Function) : Nat → Prop where
  | entry : f.Reaches f.entryBlock
  | step {label next : Nat} (h : f.Reaches label) (hnext : next ∈ f.successors label) :
      f.Reaches next

/-- What the blocks of an object are made of: the part of the block with an id. -/
def Flo.Object.inBlock (o : Flo.Object) (part : Flo.Block → List Nat) (id : Nat) : List Nat :=
  (o.blocks.get? id).elim [] part

namespace Lowering

variable {P : Setting} {ps : Polyfills} {s s' : State} {cx : Context} {S : Ty → Prop}

/-! ### Filling in blocks -/

/-- Each label has one block. -/
theorem Planned.target?_eq (h : Planned P s) {p : Nat × Nat} (hp : p ∈ s.blocks) :
    s.target? p.1 = some p.2 := by
  have hl := (h.declared p hp).1
  cases ht : s.target? p.1 with
  | none =>
    rw [State.target?, if_neg hl, List.lookup_eq_none_iff] at ht
    simpa using ht p hp
  | some id =>
    have hmem := State.mem_of_target? ht hl
    have heq := List.inj_on_of_nodup_map h.labels hmem hp rfl
    exact congrArg some (congrArg Prod.snd heq)

/-- The blocks of the object are those of labels. -/
theorem Planned.has_iff (h : Planned P s) {id : Nat} :
    s.draft.object.blocks.Has id ↔ ∃ label, s.target? label = some id := by
  refine ⟨fun hid => ?_, fun ⟨label, hlabel⟩ => h.has_of_target? hlabel⟩
  rw [← h.mem_ids_iff, List.mem_append] at hid
  rcases hid with hmem | hmem
  · obtain ⟨p, hp, rfl⟩ := List.mem_map.1 hmem
    exact ⟨p.1, h.target?_eq hp⟩
  · exact ⟨exitIndex, by simpa [State.target?] using hmem⟩

/-- A function has no fewer blocks than labels that are branched to. -/
theorem Planned.length_le (h : Planned P s) : s.blocks.length ≤ P.function.blocks.length := by
  have hsub : s.blocks.map Prod.fst ⊆ P.function.blocks.map Block.index := by
    intro label hlabel
    obtain ⟨p, hp, rfl⟩ := List.mem_map.1 hlabel
    obtain ⟨b, hb⟩ := Option.isSome_iff_exists.1 (h.declared p hp).2
    have hindex : b.index = p.1 := by simpa using List.find?_some hb
    exact hindex ▸ List.mem_map_of_mem (List.mem_of_find?_eq_some hb)
  simpa using (List.subperm_of_subset h.labels hsub).length_le

/-- The block of a label can be filled in. -/
theorem State.Inv.fillBlock (h : s.Inv P) {p : Nat × Nat} (hp : p ∈ s.blocks) (row : Flo.Block) :
    s.Grows { s with draft := s.draft.fillBlock p.2 row } ∧
      State.Inv P { s with draft := s.draft.fillBlock p.2 row } := by
  have hplan : Planned P { s with draft := s.draft.fillBlock p.2 row } := by
    have hrows : State.rows { s with draft := s.draft.fillBlock p.2 row } = s.rows.set p.2 row :=
      s.draft.rows_fillBlock p.2 row
    refine ⟨h.planned.labels, h.planned.declared, ?_, ?_, fun id hid => ?_⟩
    · rw [hrows, List.length_set]
      exact h.planned.ids
    · have hpos : 0 ≠ p.2 := by
        have := h.planned.id_bounds hp
        omega
      rw [hrows, List.head?_eq_getElem?, List.getElem?_set_ne hpos.symm, ← List.head?_eq_getElem?]
      exact h.planned.null
    · have hne : p.2 ≠ id := by
        have hdisj := List.disjoint_of_nodup_append h.planned.ids_nodup
        intro heq
        refine hdisj (List.mem_map_of_mem hp) ?_
        change s.exitBlock = some id at hid
        simp [hid, heq]
      rw [hrows, List.getElem?_set_ne hne]
      exact h.planned.exitRow id hid
  have hlen : (s.draft.fillBlock p.2 row).object.blocks.rows.length = s.rows.length := by
    rw [s.draft.rows_fillBlock, List.length_set]
  rw [s.draft.fillBlock_eq] at hplan ⊢
  exact h.of_blocks List.prefix_rfl (fun _ hid => hid) (Nat.le_of_eq hlen.symm) hplan

/-! ### Progress -/

/-- The block for a label is filled in, and its successors have blocks. -/
structure Filled (P : Setting) (ps : Polyfills) (s : State) (p : Nat × Nat) : Prop where
  block : ∃ row block codes, s.rows[p.2]? = some row ∧
    ∀ w, s.Grows w → IsBlock P ps w p.1 block codes row
  successors : ∀ label ∈ P.function.successors p.1, (s.target? label).isSome

theorem Filled.mono {p : Nat × Nat} (h : Filled P ps s p) (hg : s.Grows s')
    (hrow : s'.rows[p.2]? = s.rows[p.2]?) : Filled P ps s' p := by
  obtain ⟨row, block, codes, hsome, hblock⟩ := h.block
  refine ⟨⟨row, block, codes, hrow.trans hsome, fun w hw => hblock w (hg.trans hw)⟩,
    fun label hl => ?_⟩
  obtain ⟨id, hid⟩ := Option.isSome_iff_exists.1 (h.successors label hl)
  rw [hg.target? hid]
  rfl

/-- The blocks for the labels `done` are filled in, and all others that were branched to are
pending. The blocks that are filled in share the statements and the arms among them, in order. The
flag is set if one of them can panic. -/
structure Progress (P : Setting) (ps : Polyfills) (done : List (Nat × Nat)) (s : State) :
    Prop where
  blocks : s.blocks = done ++ s.pending
  filled : ∀ p ∈ done, Filled P ps s p
  reached : ∀ p ∈ s.blocks, P.function.Reaches p.1
  exit : s.exitBlock.isSome → ∃ p ∈ done, exitIndex ∈ P.function.successors p.1
  bodies : done.flatMap (fun p => s.draft.object.inBlock Flo.Block.statements p.2) =
    List.range' 1 (s.statements.length - 1)
  arms : done.flatMap (fun p => s.draft.object.inBlock Flo.Block.arms p.2) =
    List.range' 1 (s.arms.length - 1)
  panics : s.canPanic = done.any fun p => P.function.mayPanicAt p.1

theorem inBlock_eq_of_rows (part : Flo.Block → List Nat) {id : Nat}
    (h : s'.rows[id]? = s.rows[id]?) :
    s'.draft.object.inBlock part id = s.draft.object.inBlock part id := by
  simp only [Flo.Object.inBlock, Flo.Table.get?_eq_rows]
  exact congrArg (Option.elim · [] part) h

theorem inBlock_of_row (part : Flo.Block → List Nat) {id : Nat} {row : Flo.Block}
    (h : s.rows[id]? = some row) : s.draft.object.inBlock part id = part row := by
  simp only [Flo.Object.inBlock, Flo.Table.get?_eq_rows]
  exact congrArg (Option.elim · [] part) h

/-- One more block adds what it is made of, and the others are made of what they were. -/
theorem flatMap_inBlock_concat (part : Flo.Block → List Nat) {done : List (Nat × Nat)}
    {p : Nat × Nat} {row : Flo.Block} (hkept : ∀ q ∈ done, s'.rows[q.2]? = s.rows[q.2]?)
    (hrow : s'.rows[p.2]? = some row) :
    (done ++ [p]).flatMap (fun q => s'.draft.object.inBlock part q.2) =
      done.flatMap (fun q => s.draft.object.inBlock part q.2) ++ part row := by
  rw [List.flatMap_append, List.flatMap_singleton, inBlock_of_row part hrow]
  congr 1
  exact List.flatMap_congr fun q hq => inBlock_eq_of_rows part (hkept q hq)

/-- A block with another signature is made of the same. -/
theorem inBlock_set (part : Flo.Block → List Nat) {entry : Nat} {row row' : Flo.Block}
    (hrow : s.rows[entry]? = some row) (hrows : s'.rows = s.rows.set entry row')
    (hpart : part row' = part row) (id : Nat) :
    s'.draft.object.inBlock part id = s.draft.object.inBlock part id := by
  by_cases hne : entry = id
  · subst hne
    have hnew : s'.rows[entry]? = some row' := by
      rw [hrows, List.getElem?_set_self (List.getElem?_eq_some_iff.1 hrow).1]
    rw [inBlock_of_row part hnew, hpart, inBlock_of_row part hrow]
  · refine inBlock_eq_of_rows part ?_
    rw [hrows, List.getElem?_set_ne hne]

/-- The block of a pending label is filled in, and those that were filled in before have other
ids. -/
theorem Progress.kept {done pending : List (Nat × Nat)} {p : Nat × Nat} (h : Progress P ps done s)
    (hinv : s.Inv P) (hpending : s.pending = p :: pending) {rows : List Flo.Block}
    (hgrown : s.rows <+: rows) {row : Flo.Block} (hrows : s'.rows = rows.set p.2 row) :
    ∀ q ∈ done, s'.rows[q.2]? = s.rows[q.2]? := by
  intro q hq
  have hblocks : s.blocks = done ++ p :: pending := by rw [h.blocks, hpending]
  have hne : p.2 ≠ q.2 := by
    have hnodup := (List.nodup_append.1 hinv.planned.ids_nodup).1
    rw [hblocks, List.map_append, List.map_cons] at hnodup
    exact fun heq => List.disjoint_of_nodup_append hnodup (List.mem_map_of_mem hq)
      (heq ▸ List.mem_cons_self)
  have hlt : q.2 < s.rows.length := (hinv.planned.id_bounds (by simp [hblocks, hq])).2
  rw [hrows, List.getElem?_set_ne hne, List.getElem?_eq_getElem hlt]
  exact List.prefix_iff_getElem?.1 hgrown q.2 hlt

/-- Ids without a gap are followed by the next ones. -/
theorem range'_append_next {n : Nat} (hn : 0 < n) (k : Nat) :
    List.range' 1 (n - 1) ++ List.range' n k = List.range' 1 (n + k - 1) := by
  obtain ⟨m, rfl⟩ : ∃ m, n = 1 + m := ⟨n - 1, by omega⟩
  rw [Nat.add_sub_cancel_left, List.range'_append_1]
  congr 1
  omega

/-- One block is taken from the pending ones and filled in. -/
theorem Progress.step (hx : cx.index.Closed S)
    (hstmts : ∀ b ∈ cx.function.blocks, ∀ stmt ∈ b.statements, Belongs cx S stmt)
    {done pending : List (Nat × Nat)} {p : Nat × Nat}
    (h : Progress (cx.setting S) cx.polyfills done s) (hinv : s.Inv (cx.setting S))
    (hpending : s.pending = p :: pending) {row : Flo.Block}
    (hr : (lowerBlock cx p.1).Ran { s with pending := pending } row s') :
    s.Grows { s' with draft := s'.draft.fillBlock p.2 row } ∧
      State.Inv (cx.setting S) { s' with draft := s'.draft.fillBlock p.2 row } ∧
      Progress (cx.setting S) cx.polyfills (done ++ [p])
        { s' with draft := s'.draft.fillBlock p.2 row } ∧
      s'.blocks.map Prod.fst = enqueue (s.blocks.map Prod.fst) (cx.function.successors p.1) := by
  obtain ⟨hg₀, h₀⟩ : s.Grows { s with pending := pending } ∧
      State.Inv (cx.setting S) { s with pending := pending } := hinv.of_eq rfl rfl rfl rfl rfl
  obtain ⟨hg₁, h₁, hsched, block, codes, hcode, hbody, hblock⟩ := lowerBlock_ran hx hstmts h₀ hr
  have hlists : Lists s row.arms s' := (lowerBlock_arms hr).of_eq rfl
  have hflag : s'.canPanic = (s.canPanic || cx.function.mayPanicAt p.1) :=
    lowerBlock_marks hx hstmts h₀ hr
  have hblocks : s.blocks = done ++ p :: pending := by rw [h.blocks, hpending]
  have hmem : p ∈ s.blocks := by simp [hblocks]
  obtain ⟨new, hnew, hpend, hlabels⟩ := hsched.blocks
  obtain ⟨hg₂, h₂⟩ := h₁.fillBlock (hg₁.blocks.subset (hg₀.blocks.subset hmem)) row
  set s₂ : State := { s' with draft := s'.draft.fillBlock p.2 row } with hs₂
  have hg : s.Grows s₂ := (hg₀.trans hg₁).trans hg₂
  have hrows : s₂.rows = s'.rows.set p.2 row := s'.draft.rows_fillBlock p.2 row
  have hstatements : s₂.statements = s'.statements := by
    simp only [hs₂, State.statements]
    rw [s'.draft.fillBlock_eq]
  have harms : s₂.arms = s'.arms := by
    simp only [hs₂, State.arms]
    rw [s'.draft.fillBlock_eq]
  have hlt : p.2 < s'.rows.length :=
    Nat.lt_of_lt_of_le (hinv.planned.id_bounds hmem).2 hsched.rows.length_le
  have hrow : s₂.rows[p.2]? = some row := by
    rw [hrows, List.getElem?_set_self hlt]
  have hkept : ∀ q ∈ done, s₂.rows[q.2]? = s.rows[q.2]? :=
    h.kept hinv hpending hsched.rows hrows
  refine ⟨hg, h₂, ⟨?_, fun q hq => ?_, fun q hq => ?_, fun hexit => ?_, ?_, ?_, ?_⟩, hsched.order⟩
  · change s'.blocks = done ++ [p] ++ s'.pending
    rw [hnew, hpend, List.append_assoc, List.singleton_append, ← List.cons_append,
      ← List.append_assoc, ← hblocks]
  · rcases List.mem_append.1 hq with hq | hq
    · exact (h.filled q hq).mono hg (hkept q hq)
    · obtain rfl := List.mem_singleton.1 hq
      exact ⟨⟨row, block, codes, hrow, fun w hw => (hblock w (hg₂.trans hw)).1⟩,
        hsched.target⟩
  · have hq : q ∈ s'.blocks := hq
    rw [hnew] at hq
    rcases List.mem_append.1 hq with hq | hq
    · exact h.reached q hq
    · exact .step (h.reached p hmem) (hlabels q hq)
  · rcases hsched.exitBlock with he | he
    · have he : s'.exitBlock = s.exitBlock := he
      obtain ⟨q, hq, hexit⟩ := h.exit (he ▸ hexit)
      exact ⟨q, List.mem_append_left _ hq, hexit⟩
    · exact ⟨p, by simp, he⟩
  · rw [flatMap_inBlock_concat _ hkept hrow, h.bodies, hbody, hstatements, hcode,
      List.length_append]
    exact range'_append_next hinv.kept.statements.rows_pos _
  · rw [flatMap_inBlock_concat _ hkept hrow, h.arms, hlists.ids, harms, hlists.length]
    exact range'_append_next hinv.kept.matchArms.rows_pos _
  · rw [List.any_append, ← h.panics, List.any_cons, List.any_nil, Bool.or_false]
    exact hflag

/-- Between any two blocks, those before are filled in and the others are pending. What is true
before them, and stays true when a block is filled in, is true between them. -/
theorem Progress.lowerPending (hx : cx.index.Closed S)
    (hstmts : ∀ b ∈ cx.function.blocks, ∀ stmt ∈ b.statements, Belongs cx S stmt)
    {Q : State → Prop}
    (hstep : ∀ {s s' : State} {p : Nat × Nat} {pending : List (Nat × Nat)} {row : Flo.Block},
      s.Inv (cx.setting S) → (lowerBlock cx p.1).Ran { s with pending } row s' → Q s →
        Q { s' with draft := s'.draft.fillBlock p.2 row })
    {done : List (Nat × Nat)} {fuel : Nat} (h : Progress (cx.setting S) cx.polyfills done s)
    (hinv : s.Inv (cx.setting S)) (hQ : Q s) (hr : (lowerPending cx fuel).Ran s () s') :
    s.Grows s' ∧ s'.Inv (cx.setting S) ∧ Q s' ∧
      ∃ done', Progress (cx.setting S) cx.polyfills done' s' := by
  induction fuel generalizing s done with
  | zero =>
    obtain ⟨-, rfl⟩ := Build.ran_pure.1 hr
    exact ⟨.refl s', hinv, hQ, done, h⟩
  | succ fuel ih =>
    simp only [Lowering.lowerPending, Build.ran_bind, Build.ran_get] at hr
    obtain ⟨_, _, ⟨rfl, rfl⟩, hr⟩ := hr
    rename_i s
    cases hpending : s.pending with
    | nil =>
      simp only [hpending, Build.ran_pure] at hr
      obtain ⟨-, rfl⟩ := hr
      exact ⟨.refl s', hinv, hQ, done, h⟩
    | cons p pending =>
      simp only [hpending, Build.ran_bind, Build.ran_step] at hr
      obtain ⟨_, s₀, ⟨-, rfl⟩, row, s₁, hblock, _, s₂, hfilled, hr⟩ := hr
      obtain rfl := fill_ran hfilled
      obtain ⟨hg, hinv', h', -⟩ := h.step hx hstmts hinv hpending hblock
      obtain ⟨hg', hend⟩ := ih h' hinv' (hstep hinv hblock hQ) hr
      exact ⟨hg.trans hg', hend⟩

/-- In the end, the blocks of all labels are filled in, in the order in which they are visited. -/
theorem lowerPending_ran (hx : cx.index.Closed S)
    (hstmts : ∀ b ∈ cx.function.blocks, ∀ stmt ∈ b.statements, Belongs cx S stmt)
    {done : List (Nat × Nat)} {fuel : Nat} (hinv : s.Inv (cx.setting S))
    (h : Progress (cx.setting S) cx.polyfills done s)
    (hfuel : cx.function.blocks.length ≤ done.length + fuel)
    (hr : (lowerPending cx fuel).Ran s () s') :
    s.Grows s' ∧ s'.Inv (cx.setting S) ∧
      Progress (cx.setting S) cx.polyfills s'.blocks s' ∧
      s'.blocks.map Prod.fst =
        cx.function.visitsFrom fuel done.length (s.blocks.map Prod.fst) := by
  induction fuel generalizing s done with
  | zero =>
    obtain ⟨-, rfl⟩ := Build.ran_pure.1 hr
    have hlen : s'.blocks.length ≤ cx.function.blocks.length := hinv.planned.length_le
    have hnil : s'.pending = [] := by
      rw [h.blocks, List.length_append] at hlen
      exact List.length_eq_zero_iff.1 (by omega)
    have hdone : s'.blocks = done := by rw [h.blocks, hnil, List.append_nil]
    exact ⟨.refl s', hinv, hdone.symm ▸ h, rfl⟩
  | succ fuel ih =>
    simp only [lowerPending, Build.ran_bind, Build.ran_get] at hr
    obtain ⟨_, _, ⟨rfl, rfl⟩, hr⟩ := hr
    rename_i s
    cases hpending : s.pending with
    | nil =>
      simp only [hpending, Build.ran_pure] at hr
      obtain ⟨-, rfl⟩ := hr
      have hdone : s'.blocks = done := by rw [h.blocks, hpending, List.append_nil]
      have hend : (s'.blocks.map Prod.fst)[done.length]? = none := by simp [hdone]
      refine ⟨.refl s', hinv, hdone.symm ▸ h, ?_⟩
      simp only [Function.visitsFrom, hend]
    | cons p pending =>
      simp only [hpending, Build.ran_bind, Build.ran_step] at hr
      obtain ⟨_, s₀, ⟨-, rfl⟩, row, s₁, hblock, _, s₂, hfilled, hr⟩ := hr
      obtain rfl := fill_ran hfilled
      obtain ⟨hg, hinv', h', horder⟩ := h.step hx hstmts hinv hpending hblock
      obtain ⟨hg', hinv'', h'', hvisits⟩ := ih hinv' h' (by simp; omega) hr
      refine ⟨hg.trans hg', hinv'', h'', ?_⟩
      have hnext : (s.blocks.map Prod.fst)[done.length]? = some p.1 := by
        simp [h.blocks, hpending]
      rw [hvisits, List.length_append, List.length_singleton, horder]
      simp only [Function.visitsFrom, hnext]

/-! ### Functions -/

/-- The object of a function, as it is in the state `w` in which the lowering ends. Its variables
begin with the parameters and the local variables. The entry has a signature, and no other block
has one. The flag in the signature is set if one of the blocks can panic. -/
structure IsFunction (P : Setting) (ps : Polyfills) (w : State) (parameters locals : List Var)
    (entry : Nat) (signature : Flo.Signature) : Prop where
  valid : P.function.validate = .ok ()
  inv : w.Inv P
  result : P.returns.length = P.function.returnType.toList.length
  declaresParameters : Declares .parameter P.function.parameters parameters
  declaresLocals : Declares .automatic P.function.locals locals
  scope : parameters ++ locals <+: w.scope
  isEntry : (P.function.entryBlock, entry) ∈ w.blocks
  params : signature.params = parameters.map Var.id
  returns : signature.returns = P.returns
  location : w.draft.Knows signature.location
  block : ∀ p ∈ w.blocks, ∃ row block codes, IsBlock P ps w p.1 block codes row ∧
    w.rows[p.2]? = some { row with signature := if p.2 = entry then some signature else none }
  successors : ∀ p ∈ w.blocks, ∀ label ∈ P.function.successors p.1, (w.target? label).isSome
  reached : ∀ p ∈ w.blocks, P.function.Reaches p.1
  exit : w.exitBlock.isSome → ∃ p ∈ w.blocks, exitIndex ∈ P.function.successors p.1
  visits : w.blocks.map Prod.fst = P.function.visits
  bodies : w.blocks.flatMap (fun p => w.draft.object.inBlock Flo.Block.statements p.2) =
    List.range' 1 (w.statements.length - 1)
  branches : w.blocks.flatMap (fun p => w.draft.object.inBlock Flo.Block.arms p.2) =
    List.range' 1 (w.arms.length - 1)
  symbols : w.draft.object.symbols.pairs = [(P.function.name, entry)]
  moduleName : w.draft.object.moduleName = P.function.name
  types : w.draft.object.types = .empty
  panics : signature.canPanic = w.blocks.any fun p => P.function.mayPanicAt p.1

section

variable {w : State} {parameters locals : List Var} {entry : Nat} {signature : Flo.Signature}

/-- A statement of the object is in one of the blocks. -/
theorem IsFunction.covered (h : IsFunction P ps w parameters locals entry signature) {id : Nat}
    (hpos : 0 < id) (hlt : id < w.statements.length) :
    ∃ p ∈ w.blocks, ∃ row, w.rows[p.2]? = some row ∧ id ∈ row.statements := by
  have hmem : id ∈ List.range' 1 (w.statements.length - 1) := by
    rw [List.mem_range'_1]
    omega
  rw [← h.bodies] at hmem
  obtain ⟨p, hp, hid⟩ := List.mem_flatMap.1 hmem
  obtain ⟨row, block, codes, -, hrow⟩ := h.block p hp
  rw [inBlock_of_row _ hrow] at hid
  exact ⟨p, hp, _, hrow, hid⟩

/-- A statement of the object is emitted for a statement of one of the blocks. -/
theorem IsFunction.mem_codes (h : IsFunction P ps w parameters locals entry signature) {id : Nat}
    (hpos : 0 < id) (hlt : id < w.statements.length) :
    ∃ p ∈ w.blocks, ∃ row block codes, IsBlock P ps w p.1 block codes row ∧
      ∃ s ∈ codes.flatten, w.statements[id]? = some s := by
  obtain ⟨p, hp, row, hrow, hid⟩ := h.covered hpos hlt
  obtain ⟨row', block, codes, hblock, hrow'⟩ := h.block p hp
  obtain rfl := Option.some.inj (hrow.symm.trans hrow')
  exact ⟨p, hp, row', block, codes, hblock, hblock.exists_code hid⟩

/-- The block of a label is the one that leaves the function, or one that was filled in. -/
theorem IsFunction.row_of_target? (h : IsFunction P ps w parameters locals entry signature)
    {label id : Nat} (hlabel : w.target? label = some id) : ∃ row, w.rows[id]? = some row ∧
      (label = exitIndex ∧ row = ⟨none, .usable, [], .ret P.returns, []⟩ ∨
        label ≠ exitIndex ∧ ∃ block codes row', IsBlock P ps w label block codes row' ∧
          row = { row' with signature := if id = entry then some signature else none }) := by
  by_cases hl : label = exitIndex
  · rw [State.target?, if_pos hl] at hlabel
    exact ⟨_, h.inv.planned.exitRow id hlabel, .inl ⟨hl, rfl⟩⟩
  · obtain ⟨row, block, codes, hblock, hrow⟩ := h.block _ (State.mem_of_target? hlabel hl)
    exact ⟨_, hrow, .inr ⟨hl, block, codes, row, hblock, rfl⟩⟩

/-- A block of the object is the one that leaves the function, or one that was filled in. -/
theorem IsFunction.row_of_has (h : IsFunction P ps w parameters locals entry signature) {id : Nat}
    (hid : w.draft.object.blocks.Has id) :
    ∃ row, w.rows[id]? = some row ∧ (row = ⟨none, .usable, [], .ret P.returns, []⟩ ∨
      ∃ index block codes row', IsBlock P ps w index block codes row' ∧
        row = { row' with signature := if id = entry then some signature else none }) := by
  obtain ⟨label, hlabel⟩ := h.inv.planned.has_iff.1 hid
  obtain ⟨row, hrow, ⟨-, heq⟩ | ⟨-, block, codes, row', hblock, heq⟩⟩ := h.row_of_target? hlabel
  · exact ⟨row, hrow, .inl heq⟩
  · exact ⟨row, hrow, .inr ⟨label, block, codes, row', hblock, heq⟩⟩

end

/-- Nothing has been lowered in the initial state. -/
theorem State.inv_initial {x : UnitIndex} {types : Registry} (hs : types.Sound x S) (f : Function)
    (source : String) : (State.initial types f.name source).Inv ⟨x, f, [], S⟩ := by
  refine ⟨hs, by simp [State.initial], by simp [State.initial], by simp [State.initial],
    by simp, ?_, Flo.Draft.kept_empty _ _, ?_⟩
  · intro row hrow
    obtain rfl := List.mem_singleton.1 hrow
    exact ⟨trivial, nofun⟩
  exact ⟨by simp [State.initial], by simp [State.initial], by simp [State.initial, State.rows,
    Flo.Draft.empty, Flo.Object.empty], by simp [State.initial, State.rows, Flo.Draft.empty,
    Flo.Object.empty], by simp [State.initial]⟩

/-- The entry is the first block that is branched to. -/
theorem prepare_ran {x : UnitIndex} (hx : x.Closed S) {f : Function} (hS : ∀ ty ∈ f.types, S ty)
    {types : Registry} (hs : types.Sound x S) {source : String} {parameters : List Nat}
    {entry : Nat}
    (hr : (prepare x ps f).Ran (.initial types f.name source) (cx, parameters, entry) s) :
    ∃ slot vs ls, cx = ⟨x, ps, f, slot, none⟩ ∧ f.validate = .ok () ∧
      slot.isSome = f.returnType.isSome ∧ parameters = vs.map Var.id ∧
      Declares .parameter f.parameters vs ∧ Declares .automatic f.locals ls ∧
      vs ++ ls <+: s.scope ∧ s.Inv (cx.setting S) ∧ Progress (cx.setting S) ps [] s ∧
      (f.entryBlock, entry) ∈ s.blocks ∧ s.blocks.map Prod.fst = [f.entryBlock] := by
  have harms : s.arms = (State.initial types f.name source).arms :=
    arms_eq x (prepare_keeps (.univ x) ps (by simp)) hr
  have hpanics : s.canPanic = false := prepare_marks x ps f _ _ _ hr
  simp only [prepare, check, Build.ran_bind, Build.ran_ofExcept, Build.ran_pure] at hr
  obtain ⟨_, _, ⟨hvalid, rfl⟩, ⟨ids, slot⟩, s₁, hd, id, s₂, hb, heq, rfl⟩ := hr
  simp only [Prod.mk.injEq] at heq
  obtain ⟨rfl, rfl, rfl⟩ := heq
  have hvalid : f.validate = .ok () := by
    cases hv : f.validate with
    | ok u => rfl
    | error e => simp [hv, Except.mapError] at hvalid
  obtain ⟨-, -, -, hexit⟩ := Function.validate_eq_ok hvalid
  obtain ⟨vs, ls, hsome, rfl, hps, hls, hscope, hinv, -, hst, hblocks, hpending, hnone⟩ :=
    declareVariables_ran hx hS (State.inv_initial hs f source) rfl rfl hd
  have hinv₁ : s₁.Inv (Context.setting ⟨x, ps, f, slot, none⟩ S) := hinv
  obtain ⟨htarget, -, he⟩ := blockFor_ran hinv₁ hb
  obtain ⟨new, hnew, hpend, hlabels⟩ := he.schedules.blocks
  have hst' : s.statements = s₁.statements := by rw [he.statements, List.append_nil]
  refine ⟨slot, vs, ls, rfl, hvalid, hsome, rfl, hps, hls, hscope ▸ he.grows.scope, he.inv, ?_,
    State.mem_of_target? htarget hexit, ?_⟩
  · refine ⟨?_, by simp, fun p hp => ?_, fun hsome => ?_, ?_, ?_, hpanics⟩
    · rw [hnew, hpend, hblocks, hpending]
      rfl
    · rw [hnew, hblocks] at hp
      obtain heq := List.mem_singleton.1 (hlabels p hp)
      exact heq ▸ .entry
    · rcases he.schedules.exitBlock with heq | hmem
      · rw [heq, hnone] at hsome
        cases hsome
      · exact absurd (List.mem_singleton.1 hmem).symm hexit
    · rw [hst', hst]
      simp [State.initial, State.statements, Flo.Draft.empty, Flo.Object.empty]
    · rw [harms]
      simp [State.initial, State.arms, Flo.Draft.empty, Flo.Object.empty]
  · rw [he.schedules.order, hblocks]
    exact enqueue_of_not_mem hexit (by simp [State.initial])

/-- Exports do not matter between steps. -/
theorem State.Inv.export (h : s.Inv P) (name : String) (id : Nat) :
    s.Grows { s with draft := s.draft.exportBlock name id } ∧
      State.Inv P { s with draft := s.draft.exportBlock name id } := by
  have hg : s.Grows { s with draft := s.draft.exportBlock name id } :=
    ⟨.refl _, List.prefix_rfl, List.prefix_rfl, List.prefix_rfl, List.prefix_rfl,
      List.prefix_rfl, List.prefix_rfl, fun h => h⟩
  exact ⟨hg, h.sound, h.names, h.ids, fun v hv => (h.holds v hv).mono hg,
    fun i hi => (h.result i hi).mono hg, h.typed,
    h.kept.of_blocks (Nat.le_refl _) (s.draft.object.symbols.insert name id),
    h.planned.of_eq rfl rfl rfl⟩

/-- The entry gets its signature, and everything else is as it was. -/
theorem finish_ran (h : s.Inv (cx.setting S)) {parameters : List Nat} {p : Nat × Nat}
    (hp : p ∈ s.blocks) {row : Flo.Block} (hrow : s.rows[p.2]? = some row)
    (hr : (finish cx parameters p.2).Ran s () s') :
    ∃ signature : Flo.Signature, s.Grows s' ∧ s'.Inv (cx.setting S) ∧
      signature.params = parameters ∧ signature.returns = cx.returns ∧
      s'.draft.Knows signature.location ∧ s'.blocks = s.blocks ∧ s'.exitBlock = s.exitBlock ∧
      s'.statements = s.statements ∧ s'.arms = s.arms ∧
      s'.rows = s.rows.set p.2 { row with signature := some signature } ∧
      s'.draft.object.symbols = s.draft.object.symbols.insert cx.function.name p.2 ∧
      s'.draft.object.moduleName = s.draft.object.moduleName ∧
      s'.draft.object.types = s.draft.object.types ∧ signature.canPanic = s.canPanic := by
  have hline : ∀ n, firstLine cx.function = some n → n ≠ 0 → cx.function.Mentions n := by
    intro n hn _
    simp only [firstLine, Option.bind_eq_bind, Option.bind_eq_some_iff] at hn
    obtain ⟨b, hb, stmt, hstmt, hn⟩ := hn
    exact ⟨b, List.mem_of_find?_eq_some hb, stmt, List.mem_of_head? hstmt, hn⟩
  simp only [finish, Build.ran_bind, Build.ran_get, Build.ran_present, Build.ran_step] at hr
  obtain ⟨l, _, hloc, _, _, ⟨rfl, rfl⟩, row', _, ⟨hrow', rfl⟩, _, s₁, ⟨rfl, rfl⟩, _, _, hfilled, -,
    rfl⟩ := hr
  obtain rfl := fill_ran hfilled
  obtain ⟨hk, -, -, -, he⟩ := locate_ran (P := cx.setting S) hline h hloc
  obtain ⟨hb, -, hexit⟩ := he.blocks_eq
  have hst : s₁.statements = s.statements := by rw [he.statements, List.append_nil]
  obtain ⟨-, hs₁⟩ := Build.ran_step.1 hloc
  have hflag : s₁.canPanic = s.canPanic := by rw [hs₁]
  have hext := s.draft.extends_locate (firstLine cx.function)
  have hdraft : s₁.draft = (s.draft.locate (firstLine cx.function)).2 := by rw [hs₁]
  rw [← hdraft] at hext
  have hrow₁ : s₁.draft.object.blocks.get? p.2 = some row := by
    rw [hext.blocks, Flo.Table.get?_eq_rows, hrow]
  obtain rfl : row = row' := Option.some.inj (hrow₁.symm.trans hrow')
  set signature : Flo.Signature := ⟨parameters, cx.returns, s₁.canPanic, l⟩ with hsignature
  obtain ⟨hg₂, h₂⟩ := he.inv.fillBlock (hb ▸ hp) { row with signature := some signature }
  obtain ⟨hg₃, h₃⟩ := h₂.export cx.function.name p.2
  have hfill := s₁.draft.fillBlock_eq p.2 { row with signature := some signature }
  refine ⟨signature, (he.grows.trans hg₂).trans hg₃, h₃, rfl, rfl, ?_, hb, hexit, ?_, ?_, ?_, ?_,
    ?_, ?_, hflag⟩
  · intro id hid
    rw [hfill]
    exact hk id hid
  · rw [← hst]
    simp only [State.statements, Flo.Draft.exportBlock]
    rw [hfill]
  · have hsame : s₁.draft.object.matchArms = s.draft.object.matchArms :=
      hdraft ▸ Flo.Draft.Allows.locate (F := SameArms) s.draft (firstLine cx.function)
    simp only [State.arms, Flo.Draft.exportBlock]
    rw [hfill, ← hsame]
  · have hrows := s₁.draft.rows_fillBlock p.2 { row with signature := some signature }
    rw [hext.blocks] at hrows
    exact hrows
  · simp only [Flo.Draft.exportBlock]
    rw [hfill, ← hext.symbols]
  · simp only [Flo.Draft.exportBlock]
    rw [hfill, ← hext.moduleName]
  · simp only [Flo.Draft.exportBlock]
    rw [hfill, ← hext.types]

/-- The statements of a function have its types and lines. -/
theorem belongs_of_types (hS : ∀ ty ∈ cx.function.types, S ty) :
    ∀ b ∈ cx.function.blocks, ∀ stmt ∈ b.statements, Belongs cx S stmt := by
  intro b hb stmt hstmt
  refine ⟨fun ty hty => hS ty ?_, fun n hn => ⟨b, hb, stmt, hstmt, hn⟩⟩
  exact Function.mem_types_of_statement hb hstmt hty

/-- When all blocks are filled in, the entry gets its signature, which the others do not have. -/
theorem Progress.signed (h : Progress P ps s.blocks s) (hg : s.Grows s') {entry : Nat}
    {row : Flo.Block} (hrow : s.rows[entry]? = some row) {signature : Flo.Signature}
    (hrows : s'.rows = s.rows.set entry { row with signature := some signature }) :
    ∀ p ∈ s.blocks, ∃ row block codes, IsBlock P ps s' p.1 block codes row ∧
      s'.rows[p.2]? =
        some { row with signature := if p.2 = entry then some signature else none } := by
  intro p hp
  obtain ⟨row', block, codes, hrow', hblock⟩ := (h.filled p hp).block
  refine ⟨row', block, codes, hblock s' hg, ?_⟩
  by_cases hne : entry = p.2
  · obtain rfl : row = row' := Option.some.inj (hrow.symm.trans (hne ▸ hrow'))
    rw [hrows, ← hne, List.getElem?_set_self (List.getElem?_eq_some_iff.1 hrow).1, if_pos rfl]
  · rw [hrows, List.getElem?_set_ne hne, hrow', if_neg (Ne.symm hne),
      ← (hblock s' hg).signature]

theorem lowerAll_ran {x : UnitIndex} (hx : x.Closed S) {f : Function} (hS : ∀ ty ∈ f.types, S ty)
    {types : Registry} (hs : types.Sound x S) {source : String}
    (hr : (lowerAll x ps f).Ran (.initial types f.name source) () s) :
    ∃ returns parameters locals entry signature,
      IsFunction ⟨x, f, returns, S⟩ ps s parameters locals entry signature := by
  simp only [lowerAll, locate, Build.ran_bind, Build.ran_mapError] at hr
  obtain ⟨⟨cx, parameters, entry⟩, s₁, hprepare, _, s₂, hpending, hfinish⟩ := hr
  obtain ⟨slot, vs, ls, rfl, hvalid, hsome, rfl, hps, hls, hscope, hinv₁, hprogress, hentry,
    hfirst⟩ := prepare_ran hx hS hs hprepare
  set cx : Context := ⟨x, ps, f, slot, none⟩ with hcx
  have hx' : cx.index.Closed S := hx
  have hstmts : ∀ b ∈ cx.function.blocks, ∀ stmt ∈ b.statements, Belongs cx S stmt :=
    belongs_of_types hS
  obtain ⟨hg₂, hinv₂, hdone, hvisits⟩ :=
    lowerPending_ran hx' hstmts hinv₁ hprogress (by simp [hcx]) hpending
  have hmem : (f.entryBlock, entry) ∈ s₂.blocks := hg₂.blocks.subset hentry
  obtain ⟨row, block, codes, hrow, hblock⟩ := (hdone.filled _ hmem).block
  obtain ⟨signature, hg₃, hinv₃, hparams, hreturns, hknown, hblocks, hexit, hst, harms, hrows,
    hsymbols, hname, htypes, hpanics⟩ := finish_ran hinv₂ hmem hrow hfinish
  have hframe : Frame (State.initial types f.name source).draft s₂.draft :=
    (moves_of_ran hx hS hprepare hpending).frame
  refine ⟨slot.toList, vs, ls, entry, signature, ⟨hvalid, hinv₃, ?_, hps, hls,
    hscope.trans (hg₂.scope.trans hg₃.scope), hblocks ▸ hmem, hparams, hreturns, hknown,
    hblocks.symm ▸ hdone.signed hg₃ hrow hrows, ?_, ?_, ?_, ?_, ?_, ?_, ?_, ?_, ?_, ?_⟩⟩
  · cases slot <;> cases hret : f.returnType <;> simp [hret] at hsome ⊢
  · intro p hp label hl
    have hfilled := hdone.filled p (hblocks ▸ hp)
    obtain ⟨id, hid⟩ := Option.isSome_iff_exists.1 (hfilled.successors label hl)
    rw [hg₃.target? hid]
    rfl
  · exact fun p hp => hdone.reached p (hblocks ▸ hp)
  · intro h
    rw [hexit] at h
    rw [hblocks]
    exact hdone.exit h
  · rw [hblocks, hvisits, hfirst]
    rfl
  · rw [hblocks, hst, ← hdone.bodies]
    exact List.flatMap_congr fun p _ => inBlock_set Flo.Block.statements hrow hrows rfl p.2
  · rw [hblocks, harms, ← hdone.arms]
    exact List.flatMap_congr fun p _ => inBlock_set Flo.Block.arms hrow hrows rfl p.2
  · rw [hsymbols, hframe.symbols]
    rfl
  · rw [hname, hframe.moduleName]
    rfl
  · rw [htypes, hframe.types]
    rfl
  · rw [hpanics, hblocks]
    exact hdone.panics

/-- The object of a function is what the draft is in the end. -/
theorem lowerFunction_lowerAll {x : UnitIndex} {f : Function} {types types' : Registry}
    {source : String} {o : Flo.Object} (hr : (lowerFunction x ps source f).Ran types o types') :
    ∃ w, (lowerAll x ps f).Ran (.initial types f.name source) () w ∧ o = w.draft.object ∧
      types' = w.types := by
  obtain ⟨r, w, hall, hr, rfl⟩ := lowerFunction_eq_ok hr
  cases r with
  | error e => cases hr
  | ok u => exact ⟨w, hall, Except.ok.inj hr, rfl⟩

/-- A function is lowered to its object. -/
theorem lowerFunction_ran {x : UnitIndex} (hx : x.Closed S) {f : Function}
    (hS : ∀ ty ∈ f.types, S ty) {types types' : Registry} (hs : types.Sound x S)
    {source : String} {o : Flo.Object} (hr : (lowerFunction x ps source f).Ran types o types') :
    ∃ returns w parameters locals entry signature,
      IsFunction ⟨x, f, returns, S⟩ ps w parameters locals entry signature ∧
      o = w.draft.object ∧ types' = w.types := by
  obtain ⟨w, hall, rfl, rfl⟩ := lowerFunction_lowerAll hr
  obtain ⟨returns, parameters, locals, entry, signature, h⟩ := lowerAll_ran hx hS hs hall
  exact ⟨returns, w, parameters, locals, entry, signature, h, rfl, rfl⟩

end Lowering

end GimpleLowering

import GimpleLowering.Proofs.Lowering.Functions

/-!
# Control flow

The blocks of the object are those that control can get to, each once, and the exit of a block goes
where the block of the source goes. The label of the exit stands for the one block that leaves the
function, which is there only if something branches to it.

## Main definitions

* `Lowering.EndsLike` — an exit is the image of the ending of a block
* `Lowering.ControlFlow` — the blocks of an object are the images of labels

## Main results

* `Lowering.lowerFunction_controlFlow` — every function keeps its control flow
-/

namespace GimpleLowering.Lowering

open Gimple Layout

/-! ### Endings -/

/-- The arm continues at the block if the variable holds. -/
def ContinuesAt (o : Flo.Object) (arm condition target : Nat) : Prop :=
  ∃ location, o.matchArms.get? arm = some ⟨condition, .here target, .usable, [], location⟩

/-- The last thing that the block does is to make the variable true. -/
def AlwaysHolds (o : Flo.Object) (row : Flo.Block) (condition : Nat) : Prop :=
  ∃ id note, row.statements.getLast? = some id ∧
    o.statements.get? id = some (.assignConst condition (.ofBool true) note)

/-- The exit goes where control goes after the last statement of a block, given the images of
labels, the variables that hold the result, and the next block. -/
def EndsLike (f : Function) (o : Flo.Object) (image : Nat → Nat) (returns : List Nat)
    (row : Flo.Block) (next : Option Block) : Option Statement → Prop
  | some (.goto target _) => row.exit = .goto (image target)
  | some (.conditional _ _ trueLabel falseLabel _) =>
    ∃ first second condition otherwise, row.exit = .branch [first, second] ∧
      ContinuesAt o first condition (image trueLabel) ∧
      ContinuesAt o second otherwise (image falseLabel) ∧ AlwaysHolds o row otherwise
  | some (.switch _ cases defaultLabel _) =>
    ∃ arms last otherwise, row.exit = .branch (arms ++ [last]) ∧
      List.Forall₂ (fun (c : Case) arm => ∃ condition,
        ContinuesAt o arm condition (image c.block)) cases arms ∧
      ContinuesAt o last otherwise (image defaultLabel) ∧ AlwaysHolds o row otherwise
  | some (.ret _ _) => row.exit = .ret returns
  | some (.assign ..) | some (.call ..) | none =>
    match next with
    | some b => row.exit = .goto (image b.index)
    | none =>
      (f.returnType = none ∧ row.exit = .ret []) ∨
        (f.returnType ≠ none ∧ row.exit = .panic missingReturnMessage [])

/-- The blocks of the object are the images of the labels that control can get to, and one more
for the label of the exit if anything branches there. -/
structure ControlFlow (f : Function) (o : Flo.Object) (image : Nat → Nat)
    (signature : Flo.Signature) : Prop where
  injective : ∀ {label label' : Nat}, f.Reaches label → f.Reaches label' →
    image label = image label' → label = label'
  blocks : ∀ id, o.blocks.Has id ↔
    (∃ label, label ≠ exitIndex ∧ f.Reaches label ∧ image label = id) ∨
      (∃ label, f.Reaches label ∧ exitIndex ∈ f.successors label) ∧ image exitIndex = id
  exit : (∃ label, f.Reaches label ∧ exitIndex ∈ f.successors label) →
    o.blocks.get? (image exitIndex) = some ⟨none, .usable, [], .ret signature.returns, []⟩
  ending : ∀ {label : Nat}, label ≠ exitIndex → f.Reaches label → ∃ b row,
    f.block? label = some b ∧ o.blocks.get? (image label) = some row ∧ row.poison = .usable ∧
      row.signature = (if label = f.entryBlock then some signature else none) ∧
      EndsLike f o image signature.returns row (f.blockAfter? label) b.statements.getLast?
  returns : signature.returns.length = f.returnType.toList.length
  symbols : o.symbols.pairs = [(f.name, image f.entryBlock)]

/-! ### The last statement -/

variable {P : Setting} {ps : Polyfills} {w : State}

theorem LowersAll.getLast? {stmts : List Statement} {n m : Nat}
    {codes : List (List Flo.Statement)} {exit : Option Flo.BlockExit}
    (h : LowersAll P ps w stmts n codes exit m) :
    (exit = none ∧ ∀ stmt, stmts.getLast? = some stmt → stmt.isTerminator = false) ∨
      ∃ stmt e n' code before, exit = some e ∧ stmts.getLast? = some stmt ∧
        Leaves P ps w stmt n' code e m ∧ codes.flatten = before ++ code := by
  induction h with
  | nil n => exact .inl ⟨rfl, by simp⟩
  | leave leaves => exact .inr ⟨_, _, _, _, [], rfl, rfl, leaves, by simp⟩
  | @perform stmt rest n k m code codes exit performs others ih =>
    rcases ih with ⟨rfl, hlast⟩ | ⟨stmt', e, n', code', before, rfl, hlast, hleaves, hcode⟩
    · refine .inl ⟨rfl, fun stmt' h => ?_⟩
      cases rest with
      | nil =>
        obtain rfl : stmt = stmt' := by simpa using h
        cases performs <;> rfl
      | cons next rest => exact hlast stmt' (by simpa using h)
    · refine .inr ⟨stmt', e, n', code', code ++ before, rfl, ?_, hleaves, by simp [hcode]⟩
      cases rest with
      | nil => simp at hlast
      | cons next rest => simpa using hlast

/-- Control falls through a block, or its last statement is a terminator, whose exit it has. -/
theorem IsBlock.ending {index : Nat} {block : Block} {codes : List (List Flo.Statement)}
    {row : Flo.Block} (h : IsBlock P ps w index block codes row) :
    (Exits P w index none row.exit ∧
      ∀ stmt, block.statements.getLast? = some stmt → stmt.isTerminator = false) ∨
      ∃ stmt n code m before, block.statements.getLast? = some stmt ∧
        Leaves P ps w stmt n code row.exit m ∧ codes.flatten = before ++ code := by
  obtain ⟨n, exit, m, hlowers, hexits⟩ := h.lowers
  obtain ⟨rfl, hlast⟩ | ⟨stmt, e, n', code, before, rfl, hlast, hleaves, hcode⟩ :=
    hlowers.getLast?
  · exact .inl ⟨hexits, hlast⟩
  · generalize row.exit = exit at hexits ⊢
    cases hexits
    exact .inr ⟨stmt, n', code, m, before, hlast, hleaves, hcode⟩

/-- Code that ends with a statement is the body of a block that does. -/
theorem IsBlock.getLast?_body {index : Nat} {block : Block} {codes : List (List Flo.Statement)}
    {row : Flo.Block} (h : IsBlock P ps w index block codes row) {before : List Flo.Statement}
    {last : Flo.Statement} (hcode : codes.flatten = before ++ [last]) :
    ∃ id, row.statements.getLast? = some id ∧ w.statements[id]? = some last := by
  have hlast := congrArg List.getLast? h.body
  rw [hcode, List.map_append, List.map_singleton, List.getLast?_concat, List.getLast?_map,
    Option.map_eq_some_iff] at hlast
  exact hlast

/-! ### Labels and blocks -/

/-- The block of a label, once it is known that it has one. -/
def State.image (w : State) (label : Nat) : Nat := (w.target? label).getD 0

theorem State.image_eq {label id : Nat} (h : w.target? label = some id) : w.image label = id := by
  simp [State.image, h]

theorem Planned.target?_inj (h : Planned P w) {label label' id : Nat}
    (hl : w.target? label = some id) (hl' : w.target? label' = some id) : label = label' := by
  have hdisj := List.disjoint_of_nodup_append h.ids_nodup
  by_cases he : label = exitIndex
  · by_cases he' : label' = exitIndex
    · rw [he, he']
    · have hmem := State.mem_of_target? hl' he'
      rw [State.target?, if_pos he] at hl
      exact absurd (by simp [hl]) (hdisj (List.mem_map_of_mem hmem))
  · have hmem := State.mem_of_target? hl he
    by_cases he' : label' = exitIndex
    · rw [State.target?, if_pos he'] at hl'
      exact absurd (by simp [hl']) (hdisj (List.mem_map_of_mem hmem))
    · have hmem' := State.mem_of_target? hl' he'
      have hnodup := (List.nodup_append.1 h.ids_nodup).1
      exact congrArg Prod.fst (List.inj_on_of_nodup_map hnodup hmem hmem' rfl)

section

variable {parameters locals : List Var} {entry : Nat} {signature : Flo.Signature}

/-- The label of the exit has no block in the source. -/
theorem IsFunction.block?_exit (h : IsFunction P ps w parameters locals entry signature) :
    P.function.block? exitIndex = none := by
  obtain ⟨hblocks, -, -, -⟩ := Function.validate_eq_ok h.valid
  refine List.find?_eq_none.2 fun b hb => ?_
  simpa using hblocks b hb

theorem IsFunction.successors_exit (h : IsFunction P ps w parameters locals entry signature) :
    P.function.successors exitIndex = [] := by
  simp [Function.successors, h.block?_exit]

/-- Control gets to exactly the labels that have blocks. -/
theorem IsFunction.reaches_iff (h : IsFunction P ps w parameters locals entry signature)
    {label : Nat} : P.function.Reaches label ↔ ∃ id, w.target? label = some id := by
  constructor
  · intro hr
    induction hr with
    | entry => exact ⟨entry, h.inv.planned.target?_eq h.isEntry⟩
    | @step label next hr hnext ih =>
      obtain ⟨id, hid⟩ := ih
      have hl : label ≠ exitIndex := by
        rintro rfl
        simp [h.successors_exit] at hnext
      exact Option.isSome_iff_exists.1
        (h.successors _ (State.mem_of_target? hid hl) next hnext)
  · rintro ⟨id, hid⟩
    by_cases hl : label = exitIndex
    · rw [State.target?, if_pos hl] at hid
      obtain ⟨p, hp, hexit⟩ := h.exit (by simp [hid])
      exact hl ▸ .step (h.reached p hp) hexit
    · exact h.reached _ (State.mem_of_target? hid hl)

/-- What the blocks are made of is in the block for some label. -/
theorem IsFunction.exists_label (h : IsFunction P ps w parameters locals entry signature)
    {part : Flo.Block → List Nat} {count id : Nat}
    (hpart : w.blocks.flatMap (fun p => w.draft.object.inBlock part p.2) =
      List.range' 1 (count - 1)) (hpos : 0 < id) (hlt : id < count) :
    ∃ label, label ≠ exitIndex ∧ P.function.Reaches label ∧
      id ∈ w.draft.object.inBlock part (w.image label) := by
  have hmem : id ∈ List.range' 1 (count - 1) := by
    rw [List.mem_range'_1]
    omega
  rw [← hpart] at hmem
  obtain ⟨p, hp, hid⟩ := List.mem_flatMap.1 hmem
  refine ⟨p.1, (h.inv.planned.declared p hp).1, h.reached p hp, ?_⟩
  rwa [State.image_eq (h.inv.planned.target?_eq hp)]

theorem IsArm.continuesAt {arm condition label target : Nat} (h : IsArm w arm condition target)
    (ht : w.target? label = some target) :
    ContinuesAt w.draft.object arm condition (w.image label) := by
  obtain ⟨location, hrow, -⟩ := h
  refine ⟨location, ?_⟩
  rw [State.image_eq ht, Flo.Table.get?_eq_rows]
  exact hrow

theorem Arms.continuesAt {selector : Nat} {typ : Flo.Ty} {cases : List Case} {targets : List Nat}
    {n m : Nat} {code : List Flo.Statement} {arms : List Nat}
    (h : Arms ps w selector typ (cases.zip targets) n code arms m)
    (ht : cases.map (fun c => w.target? c.block) = targets.map some) :
    List.Forall₂ (fun (c : Case) arm => ∃ condition,
      ContinuesAt w.draft.object arm condition (w.image c.block)) cases arms := by
  induction cases generalizing targets n code arms with
  | nil =>
    cases h
    exact .nil
  | cons c cases ih =>
    cases targets with
    | nil => simp at ht
    | cons target targets =>
      simp only [List.map_cons, List.cons.injEq] at ht
      cases h with
      | cons compare isArm rest => exact .cons ⟨_, isArm.continuesAt ht.1⟩ (ih rest ht.2)

theorem IsFunction.returns_eq_nil (h : IsFunction P ps w parameters locals entry signature)
    (isVoid : P.function.returnType = none) : P.returns = [] := by
  simpa [isVoid] using h.result

/-- All returns return the result. -/
theorem IsFunction.values_eq (h : IsFunction P ps w parameters locals entry signature)
    {index : Nat} {block : Block} {codes : List (List Flo.Statement)} {row : Flo.Block}
    (hb : IsBlock P ps w index block codes row) {values : List Nat}
    (hexit : row.exit = .ret values) : values = P.returns := by
  have hending := hb.ending
  rw [hexit] at hending
  obtain ⟨hexits, -⟩ | ⟨stmt, n, code, m, before, -, hleaves, -⟩ := hending
  · cases hexits with
    | finish after isVoid => rw [h.returns_eq_nil isVoid]
  · cases hleaves with
    | retVoid isVoid => rw [h.returns_eq_nil isVoid]
    | ret isResult isSlot => rw [isSlot]

/-- The exit of a block is the image of the ending of its source. -/
theorem IsFunction.endsLike (h : IsFunction P ps w parameters locals entry signature) {index : Nat}
    {block : Block} {codes : List (List Flo.Statement)} {row : Flo.Block}
    (hb : IsBlock P ps w index block codes row) :
    EndsLike P.function w.draft.object w.image signature.returns row
      (P.function.blockAfter? index) block.statements.getLast? := by
  have hholds : ∀ condition, (∃ before note,
      codes.flatten = before ++ [.assignConst condition (.ofBool true) note]) →
        AlwaysHolds w.draft.object row condition := by
    rintro condition ⟨before, note, hcode⟩
    obtain ⟨id, hlast, hid⟩ := hb.getLast?_body hcode
    exact ⟨id, note, hlast, by rw [Flo.Table.get?_eq_rows]; exact hid⟩
  obtain ⟨hexits, hlast⟩ | ⟨stmt, n', code, m, before, hlast, hleaves, hcode⟩ := hb.ending
  · have hnext : match P.function.blockAfter? index with
        | some b => row.exit = .goto (w.image b.index)
        | none => (P.function.returnType = none ∧ row.exit = .ret []) ∨
          (P.function.returnType ≠ none ∧ row.exit = .panic missingReturnMessage []) := by
      generalize row.exit = exit at hexits ⊢
      cases hexits with
      | next after isTarget => simp only [after, State.image_eq isTarget]
      | finish after isVoid =>
        simp only [after]
        exact .inl ⟨isVoid, trivial⟩
      | missing after result =>
        simp only [after]
        exact .inr ⟨result, trivial⟩
    cases hstmt : block.statements.getLast? with
    | none => exact hnext
    | some stmt =>
      have hterm := hlast stmt hstmt
      cases stmt with
      | assign => exact hnext
      | call => exact hnext
      | conditional | ret | goto | switch => cases hterm
  · rw [hlast]
    generalize hexit : row.exit = exit at hleaves
    cases hleaves with
    | goto isTarget => exact hexit.trans (by rw [State.image_eq isTarget])
    | @conditional op left right t f line typ routine tid fid first second n' a k b m code code'
        note note' isComparison agrees operandType isTrue isFalse isRoutine readLeft readRight
        condition otherwise isFirst isSecond =>
      refine ⟨_, _, _, _, hexit, isFirst.continuesAt isTrue, isSecond.continuesAt isFalse, ?_⟩
      refine hholds _ ⟨before ++ (code ++ code' ++ [.call (.builtin routine) [a, b] [m] note]),
        note', ?_⟩
      simp [hcode]
    | switch integral selectorType valid areTargets isDefault read areArms otherwise isLast =>
      refine ⟨_, _, _, hexit, areArms.continuesAt areTargets, isLast.continuesAt isDefault, ?_⟩
      exact hholds _ ⟨_, _, hcode.trans (List.append_assoc _ _ _).symm⟩
    | retVoid isVoid => exact hexit.trans (by rw [h.returns, h.returns_eq_nil isVoid])
    | ret isResult isSlot => exact hexit.trans (by rw [h.returns, isSlot])

/-- The blocks of the object are the images of labels. -/
theorem IsFunction.controlFlow (h : IsFunction P ps w parameters locals entry signature) :
    ControlFlow P.function w.draft.object w.image signature := by
  have hplan := h.inv.planned
  have hexit : w.exitBlock.isSome ↔
      ∃ label, P.function.Reaches label ∧ exitIndex ∈ P.function.successors label := by
    constructor
    · intro hsome
      obtain ⟨p, hp, hmem⟩ := h.exit hsome
      exact ⟨p.1, h.reached p hp, hmem⟩
    · rintro ⟨label, hr, hmem⟩
      obtain ⟨id, hid⟩ := h.reaches_iff.1 (hr.step hmem)
      rw [State.target?, if_pos rfl] at hid
      simp [hid]
  refine ⟨fun {l l'} hl hl' heq => ?_, fun id => ?_, fun hleaves => ?_, fun {l} hne hl => ?_, ?_, ?_⟩
  · obtain ⟨id, hid⟩ := h.reaches_iff.1 hl
    obtain ⟨id', hid'⟩ := h.reaches_iff.1 hl'
    rw [State.image_eq hid, State.image_eq hid'] at heq
    exact hplan.target?_inj hid (heq ▸ hid')
  · rw [hplan.has_iff, ← hexit]
    constructor
    · rintro ⟨l, hid⟩
      by_cases hl : l = exitIndex
      · subst hl
        refine .inr ⟨?_, State.image_eq hid⟩
        rw [State.target?, if_pos rfl] at hid
        simp [hid]
      · exact .inl ⟨l, hl, h.reaches_iff.2 ⟨id, hid⟩, State.image_eq hid⟩
    · rintro (⟨l, -, hl, rfl⟩ | ⟨hsome, rfl⟩)
      · obtain ⟨id, hid⟩ := h.reaches_iff.1 hl
        exact ⟨l, by rw [State.image_eq hid, hid]⟩
      · obtain ⟨id, hid⟩ := Option.isSome_iff_exists.1 hsome
        have ht : w.target? exitIndex = some id := by rw [State.target?, if_pos rfl, hid]
        exact ⟨exitIndex, by rw [State.image_eq ht, ht]⟩
  · obtain ⟨id, hid⟩ := Option.isSome_iff_exists.1 (hexit.2 hleaves)
    have ht : w.target? exitIndex = some id := by rw [State.target?, if_pos rfl, hid]
    rw [State.image_eq ht, Flo.Table.get?_eq_rows, h.returns]
    exact hplan.exitRow id hid
  · obtain ⟨id, hid⟩ := h.reaches_iff.1 hl
    have hmem := State.mem_of_target? hid hne
    obtain ⟨row, block, codes, hb, hrow⟩ := h.block _ hmem
    have hends := h.endsLike hb
    refine ⟨block, { row with signature := if id = entry then some signature else none },
      hb.isBlock, ?_, ?_, ?_, hends⟩
    · rw [State.image_eq hid, Flo.Table.get?_eq_rows]
      exact hrow
    · exact hb.poison
    · have hiff : id = entry ↔ l = P.function.entryBlock := by
        constructor
        · rintro rfl
          exact hplan.target?_inj hid (hplan.target?_eq h.isEntry)
        · rintro rfl
          exact Option.some.inj (hid.symm.trans (hplan.target?_eq h.isEntry))
      simp only [hiff]
  · rw [h.returns, h.result]
  · rw [h.symbols, State.image_eq (hplan.target?_eq h.isEntry)]

end

/-- The types of the object are not asked for. -/
theorem ControlFlow.withTypes {f : Function} {o : Flo.Object} {image : Nat → Nat}
    {signature : Flo.Signature} (h : ControlFlow f o image signature) (types : Flo.TypeTables) :
    ControlFlow f { o with types := types } image signature :=
  ⟨h.injective, h.blocks, h.exit, h.ending, h.returns, h.symbols⟩

/-- Every function keeps its control flow. -/
theorem lowerFunction_controlFlow {x : UnitIndex} {source : String} {f : Function}
    {types types' : Registry} {o : Flo.Object} (reached : Reached x types)
    (run : (lowerFunction x ps source f).Ran types o types') :
    ∃ image signature, ControlFlow f o image signature := by
  obtain ⟨returns, w, parameters, locals, entry, signature, h, rfl, rfl⟩ :=
    lowerFunction_ran (.univ x) (by simp) reached.sound run
  exact ⟨w.image, signature, h.controlFlow⟩

/-- A function whose entry falls through to a block that leaves it, and with a block that control
does not get to. -/
def fallingThrough : Function :=
  ⟨"fall", [], none, 2, [], [⟨2, []⟩, ⟨3, [.goto 1 none]⟩, ⟨4, [.ret none none]⟩]⟩

theorem fallingThrough_controlFlow :
    ∃ o types, (lowerFunction .empty .library "" fallingThrough).Ran .empty o types ∧
      ∃ image signature, ControlFlow fallingThrough o image signature := by
  obtain ⟨o, types, run⟩ : ∃ o types,
      (lowerFunction .empty .library "" fallingThrough).Ran .empty o types := ⟨_, _, rfl⟩
  exact ⟨o, types, run, lowerFunction_controlFlow .empty run⟩

end GimpleLowering.Lowering

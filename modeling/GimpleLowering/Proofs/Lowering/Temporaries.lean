import GimpleLowering.Proofs.Lowering.Returns
import GimpleLowering.Proofs.Lowering.Supply
import GimpleLowering.Proofs.Lowering.Wholeness

/-!
# Temporaries

The variables of an object that have no names are the temporaries of its code. A temporary is
written once in the whole object, where it is computed, and it is read only in the same block, later
on. There are three reasons for this. A temporary is added together with the statement that writes
it, in every run (`Supplies`). The numbers of temporaries ascend through the code in the order in
which it is emitted, so no two statements write the same one. And the code of each block reads only
what it has written itself (`LowersAll.orderly`), while each statement stands in one block.

The variable for the result is the opposite case. It is read nowhere, and nothing is computed into
it: the value is copied to it in the last statement of a block.

## Main definitions

* `Flo.Object.StandsAt` — the one place where a statement or an arm is listed
* `Flo.Object.AssignedOnce` — where a temporary occurs
* `Flo.Object.IsResultSlot` — where the variable for the result occurs
* `Lowering.Coded` — the code of a block of the object
* `Lowering.Temporaries` — the variables of an object that no name of the source stands for

## Main results

* `Lowering.IsFunction.assignedOnce` — a temporary that is written is assigned once
* `Lowering.lowerFunction_temporaries` — the temporaries of every function
-/

namespace GimpleLowering

open Gimple Layout

/-! ### Objects -/

namespace Flo

/-- The variables whose values the exit hands over. -/
def BlockExit.values : BlockExit → List Nat
  | .ret values | .panic _ values => values
  | .goto _ | .branch _ | .unspecified => []

namespace Object

/-- The variable has no name. -/
def IsTemporary (o : Object) (v : Nat) : Prop :=
  o.vars.Has v ∧ ∃ row, o.vars.get? v = some row ∧ row.diagnostics = []

/-- The id is listed in one place, at the position `k` of the block. -/
def StandsAt (o : Object) (part : Block → List Nat) (id block k : Nat) : Prop :=
  ∀ block' k', (o.inBlock part block')[k']? = some id ↔ block' = block ∧ k' = k

/-- The variable is written once, by the statement with the given id, which computes it and stands
at the position `k` of the block. All that reads it comes later in the same block. -/
structure AssignedOnce (o : Object) (v id block k : Nat) : Prop where
  stands : o.StandsAt Block.statements id block k
  computed : ∃ s, o.statements.get? id = some s ∧ s.outputs.count v = 1 ∧ v ∉ s.copied
  once : ∀ {id' : Nat} {s : Statement}, o.statements.get? id' = some s → v ∈ s.outputs → id' = id
  reads : ∀ {id' : Nat} {s : Statement}, o.statements.get? id' = some s → v ∈ s.inputs →
    ∃ k', k < k' ∧ o.StandsAt Block.statements id' block k'
  conditions : ∀ {arm : Nat} {row : MatchArm}, o.matchArms.get? arm = some row →
    row.condition = v → ∃ k', o.StandsAt Block.arms arm block k'
  values : ∀ {id : Nat} {row : Block}, o.blocks.get? id = some row → v ∉ row.exit.values
  signatures : ∀ {id : Nat} {row : Block}, o.blocks.get? id = some row →
    ∀ signature ∈ row.signature, v ∉ signature.params ∧ v ∉ signature.returns

/-- The variable is not read in the object, and it is written only by a copy at the end of a block
that returns it. -/
structure IsResultSlot (o : Object) (slot : Nat) : Prop where
  unread : ∀ {id : Nat} {s : Statement}, o.statements.get? id = some s → slot ∉ s.inputs
  conditions : ∀ {arm : Nat} {row : MatchArm}, o.matchArms.get? arm = some row →
    row.condition ≠ slot
  copied : ∀ {id : Nat} {s : Statement}, o.statements.get? id = some s → slot ∈ s.outputs →
    ∃ source note block row k, s = .assign slot source note ∧
      o.StandsAt Block.statements id block k ∧ o.blocks.get? block = some row ∧
      row.statements.length = k + 1 ∧ row.exit = .ret [slot]

end Object

end Flo

namespace Lowering

variable {P : Setting} {ps : Polyfills} {x : UnitIndex} {w : State}

/-! ### Positions -/

/-- Without duplicates, an entry stands at one position of one list. -/
theorem place_unique {α β : Type} {f : α → List β} {l : List α} (h : (l.flatMap f).Nodup)
    {i j : Nat} {a a' : α} (hi : l[i]? = some a) (hj : l[j]? = some a') {k k' : Nat} {b : β}
    (hk : (f a)[k]? = some b) (hk' : (f a')[k']? = some b) : j = i ∧ k' = k := by
  obtain ⟨hinner, houter⟩ := List.nodup_flatMap.1 h
  have hdisj := List.pairwise_iff_getElem.1 houter
  obtain ⟨hi', rfl⟩ := List.getElem?_eq_some_iff.1 hi
  obtain ⟨hj', rfl⟩ := List.getElem?_eq_some_iff.1 hj
  have hmem := List.mem_of_getElem? hk
  have hmem' := List.mem_of_getElem? hk'
  obtain rfl : j = i := by
    rcases Nat.lt_trichotomy j i with hlt | heq | hlt
    · exact absurd hmem (hdisj j i hj' hi' hlt hmem')
    · exact heq
    · exact absurd hmem' (hdisj i j hi' hj' hlt hmem)
  have hlt := (List.getElem?_eq_some_iff.1 hk').1
  exact ⟨rfl, (List.getElem?_inj hlt (hinner _ (List.getElem_mem hi'))).1 (hk'.trans hk.symm)⟩

theorem exists_row_of_inBlock {part : Flo.Block → List Nat} {id block k : Nat}
    (h : (w.draft.object.inBlock part block)[k]? = some id) :
    ∃ row, w.rows[block]? = some row ∧ (part row)[k]? = some id := by
  obtain hnone | ⟨row, hrow⟩ := Option.eq_none_or_eq_some w.rows[block]?
  · rw [Flo.Object.inBlock, Flo.Table.get?_eq_rows, hnone] at h
    cases h
  · exact ⟨row, hrow, inBlock_of_row part hrow ▸ h⟩

section

variable {parameters locals : List Var} {entry : Nat} {signature : Flo.Signature}
  {part : Flo.Block → List Nat} {id v n : Nat} {s : Flo.Statement}

/-- An id that is listed in a block is listed nowhere else. -/
theorem IsFunction.standsAt (h : IsFunction P ps w parameters locals entry signature)
    (hnull : part (Flo.Entry.poisoned .nullEntry) = [])
    (hexit : part ⟨none, .usable, [], .ret P.returns, []⟩ = [])
    (hids : w.blocks.flatMap (fun p => w.draft.object.inBlock part p.2) = List.range' 1 n)
    {block k : Nat} {row : Flo.Block} (hrow : w.rows[block]? = some row)
    (hk : (part row)[k]? = some id) : w.draft.object.StandsAt part id block k := by
  have hperm := h.inv.planned.flatMap_rows_perm part hnull hexit
  rw [hids] at hperm
  have hnodup : (w.rows.flatMap part).Nodup := hperm.nodup_iff.2 List.nodup_range'
  refine fun block' k' => ⟨fun hid => ?_, ?_⟩
  · obtain ⟨row', hrow', hk'⟩ := exists_row_of_inBlock hid
    exact place_unique hnodup hrow hrow' hk hk'
  · rintro ⟨rfl, rfl⟩
    rw [inBlock_of_row part hrow]
    exact hk

/-! ### The code of blocks -/

/-- The code of a block of the object: it is orderly and writes the conditions of the arms, and the
result can only be written at its end. -/
structure Coded (P : Setting) (w : State) (block : Nat) (row : Flo.Block)
    (code : List Flo.Statement) : Prop where
  isRow : w.rows[block]? = some row
  body : row.statements.map (fun id => w.statements[id]?) = code.map some
  orderly : ∃ n m, InOrder w [] n code m
  conditions : WritesConditions w row.arms code
  writes : WritesOrdinary w code ∨ EndsWithResult P w code row.exit

/-- The blocks for labels of the source have code. -/
theorem IsFunction.coded (h : IsFunction P ps w parameters locals entry signature)
    {p : Nat × Nat} (hp : p ∈ w.blocks) : ∃ row code, Coded P w p.2 row code := by
  obtain ⟨row, block, codes, hb, hrow⟩ := h.block p hp
  obtain ⟨n, m, horderly, hconditions⟩ := hb.orderly h.inv
  exact ⟨_, codes.flatten, hrow, hb.body, ⟨n, m, horderly⟩, hconditions, hb.writes⟩

namespace Coded

variable {block k : Nat} {row : Flo.Block} {code : List Flo.Statement}

theorem getElem?_code (h : Coded P w block row code) (hid : row.statements[k]? = some id)
    (hs : w.statements[id]? = some s) : code[k]? = some s := by
  have hk := congrArg (fun l => l[k]?) h.body
  simp only [List.getElem?_map, hid, Option.map_some, hs] at hk
  obtain ⟨t, ht, heq⟩ := Option.map_eq_some_iff.1 hk.symm
  exact ht.trans heq

theorem exists_id (h : Coded P w block row code) (hs : code[k]? = some s) :
    ∃ id, row.statements[k]? = some id ∧ w.statements[id]? = some s := by
  have hk := congrArg (fun l => l[k]?) h.body
  simpa [hs] using hk

/-- What is written besides temporaries and variables in scope is the result, at the end. -/
theorem eq_assign (h : Coded P w block row code) {slot : Nat} (hslot : ¬ Ordinary w slot)
    (hs : code[k]? = some s) (hmem : slot ∈ s.outputs) : ∃ source note,
      s = .assign slot source note ∧ code.length = k + 1 ∧ row.exit = .ret [slot] := by
  obtain hordinary | ⟨before, slot', source, note, -, hexit, rfl, hbefore⟩ := h.writes
  · exact absurd (hordinary s (List.mem_of_getElem? hs) slot hmem) hslot
  rcases Nat.lt_or_ge k before.length with hlt | hge
  · rw [List.getElem?_append_left hlt] at hs
    exact absurd (hbefore s (List.mem_of_getElem? hs) slot hmem) hslot
  · rw [List.getElem?_append_right hge] at hs
    obtain rfl := List.mem_singleton.1 (List.mem_of_getElem? hs)
    obtain rfl := List.mem_singleton.1 hmem
    have hk := (List.getElem?_eq_some_iff.1 hs).1
    simp only [List.length_singleton] at hk
    exact ⟨source, note, rfl, by rw [List.length_append, List.length_singleton]; omega, hexit⟩

end Coded

/-- Every id of a table is listed in the block for some label. -/
theorem IsFunction.exists_place {α : Type} {t : Flo.Table α}
    (h : IsFunction P ps w parameters locals entry signature)
    (hids : w.blocks.flatMap (fun p => w.draft.object.inBlock part p.2) =
      List.range' 1 (t.rows.length - 1)) (hid : t.Has id) :
    ∃ block row code, ∃ k : Nat, Coded P w block row code ∧ (part row)[k]? = some id := by
  have hmem : id ∈ List.range' 1 (t.rows.length - 1) := by
    obtain ⟨hpos, hlt⟩ := hid
    exact List.mem_range'_1.2 ⟨hpos, by omega⟩
  rw [← hids] at hmem
  obtain ⟨p, hp, hid⟩ := List.mem_flatMap.1 hmem
  obtain ⟨row, code, hcoded⟩ := h.coded hp
  rw [inBlock_of_row _ hcoded.isRow] at hid
  obtain ⟨k, hk⟩ := List.mem_iff_getElem?.1 hid
  exact ⟨p.2, row, code, k, hcoded, hk⟩

/-- Every statement of the object stands in the code of a block. -/
theorem IsFunction.exists_site (h : IsFunction P ps w parameters locals entry signature)
    (hs : w.statements[id]? = some s) (hne : s ≠ .poisoned .nullEntry) :
    ∃ block row code k, Coded P w block row code ∧ code[k]? = some s ∧
      w.draft.object.StandsAt Flo.Block.statements id block k := by
  obtain ⟨block, row, code, k, hcoded, hk⟩ :=
    h.exists_place h.bodies (Flo.Table.has_of_ne h.inv.kept.statements.head?_rows hs hne)
  exact ⟨block, row, code, k, hcoded, hcoded.getElem?_code hk hs,
    h.standsAt rfl rfl h.bodies hcoded.isRow hk⟩

/-- The statements of the code of a block stand there in order. -/
theorem IsFunction.exists_standsAt (h : IsFunction P ps w parameters locals entry signature)
    {block k : Nat} {row : Flo.Block} {code : List Flo.Statement}
    (hcoded : Coded P w block row code) (hs : code[k]? = some s) :
    ∃ id, w.statements[id]? = some s ∧
      w.draft.object.StandsAt Flo.Block.statements id block k := by
  obtain ⟨id, hid, hrow⟩ := hcoded.exists_id hs
  exact ⟨id, hrow, h.standsAt rfl rfl h.bodies hcoded.isRow hid⟩

/-- Every arm of the object stands in the exit of a block, which writes its condition. -/
theorem IsFunction.exists_arm (h : IsFunction P ps w parameters locals entry signature)
    {arm : Nat} {a : Flo.MatchArm} (harm : w.arms[arm]? = some a)
    (hne : a ≠ Flo.Entry.poisoned .nullEntry) :
    ∃ block row code k, Coded P w block row code ∧ a.condition ∈ Flo.written code ∧
      row.arms ≠ [] ∧ w.draft.object.StandsAt Flo.Block.arms arm block k := by
  obtain ⟨block, row, code, k, hcoded, hk⟩ :=
    h.exists_place h.branches (Flo.Table.has_of_ne h.inv.kept.matchArms.head?_rows harm hne)
  have hmem := List.mem_of_getElem? hk
  obtain ⟨v, target, ⟨location, hrow, -⟩, hv⟩ := hcoded.conditions arm hmem
  obtain rfl := Option.some.inj (harm.symm.trans hrow)
  exact ⟨block, row, code, k, hcoded, hv, List.ne_nil_of_mem hmem,
    h.standsAt rfl rfl h.branches hcoded.isRow hk⟩

/-! ### Temporaries of objects -/

/-- A temporary is not in scope. -/
theorem IsFunction.not_inScope (h : IsFunction P ps w parameters locals entry signature)
    (htemp : IsTemp w v) : ¬ InScope w v := by
  rintro ⟨u, hu, rfl⟩
  exact h.not_isTemp_of_mem hu htemp

/-- A terminator hands over the result or nothing. -/
theorem Leaves.values_subset {stmt : Statement} {m : Nat} {code : List Flo.Statement}
    {exit : Flo.BlockExit} (h : Leaves P ps w stmt n code exit m) : exit.values ⊆ P.returns := by
  cases h with
  | goto | conditional | switch | retVoid => exact List.nil_subset _
  | ret isResult isSlot => exact isSlot ▸ List.Subset.refl _

/-- So does every exit. -/
theorem IsFunction.values_subset (h : IsFunction P ps w parameters locals entry signature)
    {row : Flo.Block} (hrow : w.rows[id]? = some row) : row.exit.values ⊆ P.returns := by
  obtain ⟨-, rfl⟩ | rfl | ⟨index, block, codes, row', hb, rfl⟩ := h.row_cases hrow
  · exact List.nil_subset _
  · exact List.Subset.refl _
  · obtain ⟨hexits, -⟩ | ⟨stmt, n, code, m, before, -, hleaves, -⟩ := hb.ending
    · change row'.exit.values ⊆ P.returns
      generalize row'.exit = exit at hexits ⊢
      cases hexits <;> exact List.nil_subset _
    · exact hleaves.values_subset

/-- The null entry has no name, as opposed to the variable for the result. -/
theorem IsFunction.ne_zero_of_mem_returns (h : IsFunction P ps w parameters locals entry signature)
    {slot : Nat} (hslot : slot ∈ P.returns) : slot ≠ 0 := by
  rintro rfl
  obtain ⟨rest, hrows, -⟩ := h.inv.kept.vars
  exact h.not_isTemp_result hslot ⟨_, by rw [State.vars, hrows]; rfl, rfl⟩

section

variable {block k : Nat} (h : IsFunction P ps w parameters locals entry signature)
  (hascends : Flo.Ascends (IsTemp w) 0 (Flo.written w.statements) w.vars.length)
  (htemp : IsTemp w v) (hs : w.statements[id]? = some s) (hv : v ∈ s.outputs)
  (hstands : w.draft.object.StandsAt Flo.Block.statements id block k)

include h hascends htemp hs hv hstands

/-- If code of a block writes the temporary, it is that block, and that position. -/
theorem IsFunction.place_eq {block' j : Nat} {row : Flo.Block} {code : List Flo.Statement}
    (hcoded : Coded P w block' row code) {t : Flo.Statement} (ht : code[j]? = some t)
    (hmem : v ∈ t.outputs) : block' = block ∧ j = k := by
  obtain ⟨id', hid', hstands'⟩ := h.exists_standsAt hcoded ht
  obtain rfl := hascends.position_unique hid' hs htemp hmem hv
  exact (hstands block' j).1 ((hstands' block' j).2 ⟨rfl, rfl⟩)

/-- What reads the temporary comes later in the block. -/
theorem IsFunction.read_later {id' : Nat} {t : Flo.Statement} (ht : w.statements[id']? = some t)
    (hmem : v ∈ t.inputs) :
    ∃ k', k < k' ∧ w.draft.object.StandsAt Flo.Block.statements id' block k' := by
  obtain ⟨block', row, code, k', hcoded, hk', hstands'⟩ :=
    h.exists_site ht (by rintro rfl; cases hmem)
  obtain ⟨n, m, horderly⟩ := hcoded.orderly
  obtain hscope | hnone | ⟨j, hj, u, hu, hout⟩ := horderly.reads.exists_writer hk' hmem
  · exact absurd hscope (h.not_inScope htemp)
  · cases hnone
  · obtain ⟨rfl, rfl⟩ := h.place_eq hascends htemp hs hv hstands hcoded hu hout
    exact ⟨k', hj, hstands'⟩

/-- An arm whose condition it is belongs to the exit of the block. -/
theorem IsFunction.arm_standsAt {arm : Nat} {a : Flo.MatchArm} (harm : w.arms[arm]? = some a)
    (hne : a ≠ Flo.Entry.poisoned .nullEntry) (hcondition : a.condition = v) :
    ∃ k', w.draft.object.StandsAt Flo.Block.arms arm block k' := by
  obtain ⟨block', row, code, k', hcoded, hwritten, -, hstands'⟩ := h.exists_arm harm hne
  obtain ⟨j, u, hu, hout⟩ := Flo.exists_getElem?_of_mem_written (hcondition ▸ hwritten)
  obtain ⟨rfl, -⟩ := h.place_eq hascends htemp hs hv hstands hcoded hu hout
  exact ⟨k', hstands'⟩

end

/-- A temporary that is written is assigned once. -/
theorem IsFunction.assignedOnce (h : IsFunction P ps w parameters locals entry signature)
    (hascends : Flo.Ascends (IsTemp w) 0 (Flo.written w.statements) w.vars.length) (hpos : 0 < v)
    (htemp : IsTemp w v) (hwritten : v ∈ Flo.written w.statements) :
    ∃ id block k, w.draft.object.AssignedOnce v id block k := by
  obtain ⟨id, s, hs, hv⟩ := Flo.exists_getElem?_of_mem_written hwritten
  obtain ⟨block, row, code, k, hcoded, hk, hstands⟩ :=
    h.exists_site hs (by rintro rfl; cases hv)
  obtain ⟨n, m, horderly⟩ := hcoded.orderly
  have hcount : s.outputs.count v = 1 :=
    hascends.count_eq_one (List.mem_of_getElem? hs) htemp hv
  have hcomputed : v ∉ s.copied := fun hcopied =>
    horderly.copies s (List.mem_of_getElem? hk) v hcopied htemp
  refine ⟨id, block, k, ?_⟩
  constructor
  case stands => exact hstands
  case computed => exact ⟨s, (Flo.Table.get?_eq_rows _ _).trans hs, hcount, hcomputed⟩
  case once =>
    intro id' t ht hmem
    rw [Flo.Table.get?_eq_rows] at ht
    exact hascends.position_unique ht hs htemp hmem hv
  case reads =>
    intro id' t ht hmem
    rw [Flo.Table.get?_eq_rows] at ht
    exact h.read_later hascends htemp hs hv hstands ht hmem
  case conditions =>
    rintro arm a harm rfl
    rw [Flo.Table.get?_eq_rows] at harm
    exact h.arm_standsAt hascends htemp hs hv hstands harm (by rintro rfl; cases hpos) rfl
  case values =>
    intro id' row' hrow hmem
    rw [Flo.Table.get?_eq_rows] at hrow
    exact h.not_isTemp_result (h.values_subset hrow hmem) htemp
  case signatures =>
    intro id' row' hrow signature' hsignature
    rw [Flo.Table.get?_eq_rows] at hrow
    rw [h.signature_eq hrow] at hsignature
    obtain ⟨-, ⟨⟩⟩ := Option.mem_ite_none_right.1 hsignature
    rw [h.params, h.returns]
    refine ⟨fun hmem => ?_, fun hmem => h.not_isTemp_result hmem htemp⟩
    obtain ⟨u, hu, rfl⟩ := List.mem_map.1 hmem
    exact h.not_isTemp_of_mem (h.scope.subset (List.mem_append_left _ hu)) htemp

/-- The variable for the result is written at the end of blocks. -/
theorem IsFunction.isResultSlot (h : IsFunction P ps w parameters locals entry signature)
    {slot : Nat} (hslot : slot ∈ P.returns) : w.draft.object.IsResultSlot slot := by
  have hordinary := h.not_ordinary hslot
  constructor
  case unread =>
    intro id s hs hmem
    rw [Flo.Table.get?_eq_rows] at hs
    obtain ⟨block, row, code, k, hcoded, hk, -⟩ := h.exists_site hs (by rintro rfl; cases hmem)
    obtain ⟨n, m, horderly⟩ := hcoded.orderly
    obtain hscope | hnone | ⟨j, hj, u, hu, hout⟩ := horderly.reads.exists_writer hk hmem
    · exact hordinary (.inr hscope)
    · cases hnone
    · -- The result is written last, so that nothing comes after it.
      obtain ⟨-, -, -, hlength, -⟩ := hcoded.eq_assign hordinary hu hout
      have hlt := (List.getElem?_eq_some_iff.1 hk).1
      omega
  case conditions =>
    intro arm a harm heq
    rw [Flo.Table.get?_eq_rows] at harm
    obtain ⟨block, row, code, k, hcoded, hwritten, harms, -⟩ := h.exists_arm harm <| by
      rintro rfl
      exact h.ne_zero_of_mem_returns hslot heq.symm
    obtain ⟨j, u, hu, hout⟩ := Flo.exists_getElem?_of_mem_written (heq ▸ hwritten)
    obtain ⟨-, -, -, -, hexit⟩ := hcoded.eq_assign hordinary hu hout
    exact harms (by rw [Flo.Block.arms, hexit]; rfl)
  case copied =>
    intro id s hs hmem
    rw [Flo.Table.get?_eq_rows] at hs
    obtain ⟨block, row, code, k, hcoded, hk, hstands⟩ :=
      h.exists_site hs (by rintro rfl; cases hmem)
    obtain ⟨source, note, rfl, hlength, hexit⟩ := hcoded.eq_assign hordinary hk hmem
    have hbody : row.statements.length = code.length := by
      simpa using congrArg List.length hcoded.body
    exact ⟨source, note, block, row, k, rfl, hstands,
      (Flo.Table.get?_eq_rows _ _).trans hcoded.isRow, hbody.trans hlength, hexit⟩

end

/-! ### Functions -/

/-- The variables of an object that no name of the source stands for. Temporaries are assigned once
and stay in their blocks, and the variable for the result is only copied to, where a block returns
it. -/
structure Temporaries (f : Function) (o : Flo.Object) (image : Nat → Nat)
    (signature : Flo.Signature) : Prop where
  controlFlow : ControlFlow f o image signature
  assignedOnce : ∀ {v : Nat}, o.IsTemporary v → ∃ id block k, o.AssignedOnce v id block k
  result : ∀ slot ∈ signature.returns, o.IsResultSlot slot

/-- **Temporaries are assigned once and are local to a block.** In the object of every function that
is lowered, each variable without a name is written by one statement, which computes it, and read
only after that in the same block. The variable for the result is read nowhere, and it is assigned
only at the end of blocks that return it. -/
theorem lowerFunction_temporaries {source : String} {f : Function} {types types' : Registry}
    {o : Flo.Object} (reached : Reached x types)
    (run : (lowerFunction x ps source f).Ran types o types') :
    ∃ image signature, Temporaries f o image signature := by
  obtain ⟨w, hall, rfl, rfl⟩ := lowerFunction_lowerAll run
  obtain ⟨returns, parameters, locals, entry, signature, h⟩ :=
    lowerAll_ran (.univ x) (by simp) reached.sound hall
  have hascends := lowerAll_ascends reached.sound hall
  refine ⟨w.image, signature, h.controlFlow, fun {v} htemp => ?_, fun slot hslot => ?_⟩
  · obtain ⟨⟨hpos, -⟩, row, hrow, hdiag⟩ := htemp
    rw [Flo.Table.get?_eq_rows] at hrow
    have htemp : IsTemp w v := ⟨row, hrow, hdiag⟩
    exact h.assignedOnce hascends hpos htemp (lowerAll_written hall hpos htemp)
  · rw [h.returns] at hslot
    exact h.isResultSlot hslot

/-- A function that copies one part of its argument to another one and returns that. -/
def copyingPart : Function :=
  let pair : Ty := .record "pair" [⟨"first", .integer 32⟩, ⟨"second", .integer 32⟩]
  let part (name : String) : Expr := .component (.integer 32) (.named pair "p") name
  ⟨"replace", [⟨"p", pair⟩], some (.integer 32), 2, [],
    [⟨2, [.assign .copy (part "first") [part "second"] none, .ret (some (part "first")) none]⟩]⟩

theorem copyingPart_temporaries :
    ∃ o types, (lowerFunction .empty .empty "" copyingPart).Ran .empty o types ∧
      ∃ image signature, Temporaries copyingPart o image signature := by
  obtain ⟨o, types, run⟩ : ∃ o types,
      (lowerFunction .empty .empty "" copyingPart).Ran .empty o types :=
    Build.exists_ran_of_endsWell (by decide +kernel)
  exact ⟨o, types, run, lowerFunction_temporaries .empty run⟩

end Lowering

end GimpleLowering

import GimpleLowering.Proofs.Except
import GimpleLowering.Proofs.Flo.Semantics

/-!
# Paths

Control goes from a block to the blocks that its exit names. A path is a list of blocks that
control can go through one after the other; which arm of a branch is taken is left open. A variable
is set on a path if a statement of one of its blocks writes it, and what is not set on a path is at
the end as it was before.

## Main definitions

* `Flo.Object.Continues`, `Flo.Object.Path` — where control can go, and how it gets there
* `Flo.Object.Sets` — a variable is written on the way
* `Flo.Object.ReturnsSet` — everything that is returned is set before

## Main results

* `Flo.Object.execBlock_frame_eq` — a block changes no variable of the frame that it does not write
-/

namespace GimpleLowering.Flo

/-- The variables that the statement writes. -/
def Statement.outputs : Statement → List Nat
  | .assignConst target _ _ | .assign target _ _ | .construct target _ _ | .load _ _ target _ =>
    [target]
  | .call _ _ outputs _ => outputs
  | .destructure _ parts _ => parts
  | .store _ _ _ _ | .poisoned _ => []

namespace Object

/-! ### Paths -/

/-- Control can go on from the exit with the block. -/
inductive Continues (o : Object) : BlockExit → Nat → Prop where
  | goto {id : Nat} : Continues o (.goto id) id
  | branch {arms : List Nat} {arm id : Nat} {row : MatchArm} (mem : arm ∈ arms)
      (isArm : o.matchArms.get? arm = some row) (isTarget : row.target = .here id) :
      Continues o (.branch arms) id

/-- Control can go through the blocks `ids` in this order, from the first of them to the last. -/
inductive Path (o : Object) (first : Nat) : List Nat → Nat → Prop where
  | start : Path o first [first] first
  | step {ids : List Nat} {last next : Nat} {row : Block} (path : Path o first ids last)
      (isRow : o.blocks.get? last = some row) (continues : o.Continues row.exit next) :
      Path o first (ids ++ [next]) next

/-- A statement of the block writes the variable. -/
def Writes (o : Object) (id v : Nat) : Prop :=
  ∃ row i s, o.blocks.get? id = some row ∧ i ∈ row.statements ∧ o.statements.get? i = some s ∧
    v ∈ s.outputs

/-- A statement of one of the blocks writes the variable. -/
def Sets (o : Object) (ids : List Nat) (v : Nat) : Prop := ∃ id ∈ ids, o.Writes id v

/-- On every path from the block to one that returns, all variables that are returned are set. -/
def ReturnsSet (o : Object) (first : Nat) : Prop :=
  ∀ {ids : List Nat} {last : Nat} {row : Block} {values : List Nat}, o.Path first ids last →
    o.blocks.get? last = some row → row.exit = .ret values → ∀ v ∈ values, o.Sets ids v

variable {o : Object} {first last v : Nat} {ids : List Nat}

/-- All blocks of a path but the last one go on with a block. -/
theorem Path.exists_eq_append (h : o.Path first ids last) : ∃ before, ids = before ++ [last] ∧
    ∀ id ∈ before, ∃ row next, o.blocks.get? id = some row ∧ o.Continues row.exit next := by
  induction h with
  | start => exact ⟨[], rfl, by simp⟩
  | @step ids last next row path isRow continues ih =>
    obtain ⟨before, rfl, hbefore⟩ := ih
    refine ⟨before ++ [last], rfl, fun id hid => ?_⟩
    rcases List.mem_append.1 hid with hid | hid
    · exact hbefore id hid
    · obtain rfl := List.mem_singleton.1 hid
      exact ⟨row, next, isRow, continues⟩

/-- A variable that is not written where control goes on is set in the last block or nowhere. -/
theorem Path.sets_iff (h : o.Path first ids last)
    (hv : ∀ id row next, o.blocks.get? id = some row → o.Continues row.exit next →
      ¬ o.Writes id v) : o.Sets ids v ↔ o.Writes last v := by
  obtain ⟨before, rfl, hbefore⟩ := h.exists_eq_append
  constructor
  · rintro ⟨id, hid, hwrites⟩
    rcases List.mem_append.1 hid with hid | hid
    · obtain ⟨row, next, hrow, hcont⟩ := hbefore id hid
      exact absurd hwrites (hv id row next hrow hcont)
    · exact List.mem_singleton.1 hid ▸ hwrites
  · exact fun hwrites => ⟨last, by simp, hwrites⟩

/-! ### The frame -/

variable {R : Runtime} {M M' : Machine}

theorem set_frame_eq {u : Nat} {value : Value} (h : o.set M u value = .ok M') (hv : v ≠ u) :
    M'.frame v = M.frame v := by
  unfold set at h
  split at h
  · obtain rfl := Except.ok.inj h
    exact Function.update_of_ne hv _ _
  · obtain rfl := Except.ok.inj h
    rfl
  · cases h
  · cases h

theorem setAll_frame_eq {us : List Nat} {values : List Value}
    (h : o.setAll M us values = .ok M') (hv : v ∉ us) : M'.frame v = M.frame v := by
  have hne : ∀ p ∈ us.zip values, v ≠ p.1 := fun p hp heq => hv (heq ▸ (List.of_mem_zip hp).1)
  unfold setAll at h
  split at h
  swap
  · cases h
  generalize us.zip values = ps at h hne
  induction ps generalizing M with
  | nil =>
    cases h
    rfl
  | cons p ps ih =>
    obtain ⟨hp, hps⟩ := List.forall_mem_cons.1 hne
    rw [List.foldlM_cons] at h
    obtain ⟨M₁, hset, h⟩ := Except.of_bind h
    rw [ih h hps, set_frame_eq hset hp]

/-- A statement changes no variable of the frame but those that it writes. -/
theorem exec_frame_eq {s : Statement} (h : o.exec R M s = .ok M') (hv : v ∉ s.outputs) :
    M'.frame v = M.frame v := by
  cases s with
  | assignConst target value note =>
    obtain ⟨_, -, hset⟩ := Except.of_bind h
    exact set_frame_eq hset (by simpa [Statement.outputs] using hv)
  | assign target source note =>
    obtain ⟨_, -, hset⟩ := Except.of_bind h
    exact set_frame_eq hset (by simpa [Statement.outputs] using hv)
  | call block input outputs note =>
    cases block with
    | builtin name =>
      obtain ⟨_, -, hset⟩ := Except.of_bind h
      exact setAll_frame_eq hset hv
    | external name =>
      obtain ⟨_, -, h⟩ := Except.of_bind h
      obtain ⟨⟨results, memory⟩, -, hset⟩ := Except.of_bind h
      change o.setAll { M with memory } outputs results = .ok M' at hset
      exact (setAll_frame_eq hset hv).trans rfl
    | here | unspecified => cases h
  | construct target initializer note =>
    obtain ⟨_, -, hset⟩ := Except.of_bind h
    exact set_frame_eq hset (by simpa [Statement.outputs] using hv)
  | destructure whole parts note =>
    obtain ⟨value, -, hset⟩ := Except.of_bind h
    cases value with
    | record values => exact setAll_frame_eq hset hv
    | _ => cases hset
  | load handle member target note =>
    obtain ⟨_, -, h⟩ := Except.of_bind h
    obtain ⟨_, -, h⟩ := Except.of_bind h
    obtain ⟨_, -, hset⟩ := Except.of_bind h
    exact set_frame_eq hset (by simpa [Statement.outputs] using hv)
  | store handle member value note =>
    obtain ⟨_, -, h⟩ := Except.of_bind h
    obtain ⟨_, -, h⟩ := Except.of_bind h
    obtain ⟨_, -, h⟩ := Except.of_bind h
    obtain ⟨_, -, h⟩ := Except.of_bind h
    cases h
    rfl
  | poisoned => cases h

theorem execAll_frame_eq {code : List Statement} (h : o.execAll R M code = .ok M')
    (hv : ∀ s ∈ code, v ∉ s.outputs) : M'.frame v = M.frame v := by
  induction code generalizing M with
  | nil =>
    cases h
    rfl
  | cons s rest ih =>
    obtain ⟨hs, hrest⟩ := List.forall_mem_cons.1 hv
    obtain ⟨M₁, hexec, h⟩ := Except.of_bind h
    rw [ih h hrest, exec_frame_eq hexec hs]

/-- A block changes no variable of the frame but those that it writes. -/
theorem execBlock_frame_eq {id : Nat} {row : Block} (hrow : o.blocks.get? id = some row)
    (h : o.execBlock R M row = .ok M') (hv : ¬ o.Writes id v) : M'.frame v = M.frame v := by
  unfold execBlock at h
  split at h
  swap
  · cases h
  rename_i code hcode
  refine execAll_frame_eq h fun s hs hmem => ?_
  obtain ⟨i, hi, hget⟩ := mem_of_mapM_eq_some hcode hs
  exact hv ⟨row, i, s, hrow, hi, hget, hmem⟩

end Object

end GimpleLowering.Flo

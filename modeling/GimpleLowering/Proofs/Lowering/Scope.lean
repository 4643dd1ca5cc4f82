import GimpleLowering.Proofs.Lowering.Emission

/-!
# Names and labels

Two kinds of names of the source get something of the runtime when they are first met: variables,
and labels that are branched to. Both are then remembered for the rest of the function.

## Main results

* `Lowering.declare_ran`, `lookup_ran` — a variable in scope is held by its runtime variable
* `Lowering.blockFor_ran` — a label that is branched to has its block
-/

namespace GimpleLowering.Lowering

open Gimple Layout

variable {P : Setting} {s s' : State} {cx : Context} {S : Ty → Prop}

/-! ### Variables -/

theorem createVariable_eq {usage : Usage} (hu : usage ≠ .temporary) (r : Representation)
    (name : String) (ty : Ty) (location : Option Nat) (d : Flo.Draft) :
    createVariable r name ty usage location d =
      (⟨name, ty, d.object.vars.rows.length, usage, r⟩,
        (d.addVariable r.valueType (linkageOf usage name) (some name) location).2) := by
  have hid := d.fst_addVariable r.valueType (linkageOf usage name) (some name) location
  simp only [createVariable, if_neg hu, linkageOf] at hid ⊢
  rw [← hid]

/-- Only globals are linked with anything, and they are under their own names. -/
theorem linkageOf_eq_external {usage : Usage} {name symbol : String}
    (h : linkageOf usage name = .external symbol) : usage = .global ∧ name = symbol := by
  unfold linkageOf at h
  split at h
  · exact ⟨‹_›, Flo.Linkage.external.inj h⟩
  · cases h

/-- A new variable is the next one, and it represents its type. -/
theorem create_ran (hx : P.index.Closed P.types) {line : Option Nat}
    (hl : ∀ n, line = some n → n ≠ 0 → P.function.Mentions n) (h : s.Inv P) {name : String}
    {ty : Ty} (hS : P.types ty) {usage : Usage} (hu : usage ≠ .temporary)
    (hglobal : usage = .global → P.index.global? name = some ty) {v : Var}
    (hr : (create P.index line name ty usage).Ran s v s') :
    Emits P s [] [] s' ∧ Stored P s' v ∧ v.name = name ∧ v.ty = ty ∧ v.usage = usage ∧
      v.id = s.vars.length ∧ s'.vars.length = v.id + 1 ∧ s'.scope = s.scope := by
  simp only [create, Build.ran_bind] at hr
  obtain ⟨rep, s₁, hrep, l, s₂, hloc, hr⟩ := hr
  obtain ⟨hrep, hv₁, hscope₁, he₁⟩ := zoom_ran (Layout.represent_keeps hx hS) h hrep
  obtain ⟨hk, hv₂, hscope₂, ht₂, he₂⟩ := locate_ran hl he₁.inv hloc
  have hrep' : Represents P.index s₂.types ty rep :=
    ht₂ ▸ Layout.represent_ran hx hS h.sound hrep
  obtain ⟨rfl, rfl⟩ := Build.ran_step.1 hr
  rw [createVariable_eq hu]
  set d := (s₂.draft.addVariable rep.valueType (linkageOf usage name) (some name) l).2 with hd
  have hrows : d.object.vars.rows = s₂.vars ++ [⟨rep.valueType, linkageOf usage name, .usable,
      [s₂.draft.object.diagnostics.rows.length], l⟩] := s₂.draft.vars_addVariable _ _ _ _
  have hsound : SoundRow P.index s₂.types ⟨rep.valueType, linkageOf usage name, .usable,
      [s₂.draft.object.diagnostics.rows.length], l⟩ := by
    refine ⟨hrep'.covers, fun {symbol} hlink => ?_⟩
    obtain ⟨husage, rfl⟩ := linkageOf_eq_external hlink
    exact ⟨ty, rep, hglobal husage, hrep', rfl⟩
  have he₃ := emits_draft he₂.inv (s₂.draft.extends_addVariable rep.valueType
    (linkageOf usage name) (some name) l) (he₂.inv.typed_append hrows hsound)
    (he₂.inv.kept.addVariable hk _ _ _) s₂.canPanic
  simp only [List.length_nil, List.range'_zero, List.append_nil, ← hd] at he₃
  have hlen : s₂.vars.length = s.vars.length := by rw [hv₂, hv₁]
  have hrow : d.object.vars.rows[s₂.vars.length]? = some ⟨rep.valueType, linkageOf usage name,
      .usable, [s₂.draft.object.diagnostics.rows.length], l⟩ := by
    rw [hrows, List.getElem?_append_right (Nat.le_refl _), Nat.sub_self]
    rfl
  exact ⟨(he₁.trans_nil he₂).trans_nil he₃, ⟨hS, hrep'.mono he₃.grows.types,
    ⟨_, hrow, rfl, rfl, by simp⟩⟩, rfl, rfl, rfl, hlen, by simp [hrows],
    hscope₂.trans hscope₁⟩

theorem Stored.lt_length {v : Var} (h : Stored P s v) : v.id < s.vars.length := by
  obtain ⟨row, hrow, -⟩ := h.row
  exact (List.getElem?_eq_some_iff.1 hrow).1

theorem HoldsResult.lt_length {id : Nat} (h : HoldsResult P s id) : id < s.vars.length := by
  obtain ⟨ty, rep, row, -, -, hrow, -⟩ := h
  exact (List.getElem?_eq_some_iff.1 hrow).1

/-- A variable that is declared is in scope, behind those that were. -/
theorem declare_ran (hx : P.index.Closed P.types) {line : Option Nat}
    (hl : ∀ n, line = some n → n ≠ 0 → P.function.Mentions n) (h : s.Inv P)
    {function name : String} {ty : Ty} (hS : P.types ty) {usage : Usage}
    (hd : Declared P name ty usage) {v : Var}
    (hr : (declare P.index function line name ty usage).Ran s v s') :
    Emits P s [] [] s' ∧ Holds P s' v ∧ v.name = name ∧ v.ty = ty ∧ v.usage = usage ∧
      v.id = s.vars.length ∧ s'.vars.length = v.id + 1 ∧ s'.scope = s.scope ++ [v] ∧
      ∀ u ∈ s.scope, u.name ≠ name := by
  simp only [declare, Build.ran_bind, Build.ran_get] at hr
  obtain ⟨_, _, ⟨rfl, rfl⟩, hr⟩ := hr
  split at hr
  · simp at hr
  rename_i s hany
  have hfresh : ∀ u ∈ s.scope, u.name ≠ name := by simpa using hany
  simp only [Build.ran_bind, Build.ran_step, Build.ran_pure] at hr
  obtain ⟨v, s₁, hc, _, s₂, ⟨-, rfl⟩, rfl, rfl⟩ := hr
  have hu : usage ≠ .temporary := by
    rintro rfl
    exact hd
  have hglobal : usage = .global → P.index.global? name = some ty := by
    rintro rfl
    exact hd
  obtain ⟨he, hv, rfl, rfl, rfl, hid, hlen, hscope⟩ := create_ran hx hl h hS hu hglobal hc
  have hv : Holds P s₁ v := ⟨hv, hd⟩
  have hg : s₁.Grows { s₁ with scope := s₁.scope ++ [v] } :=
    { State.Grows.refl s₁ with scope := List.prefix_append _ _ }
  have hids : (P.returns ++ (s₁.scope ++ [v]).map Var.id).Nodup := by
    rw [List.map_append, ← List.append_assoc, List.nodup_append]
    refine ⟨he.inv.ids, by simp, fun a ha b hb => ?_⟩
    obtain rfl : b = v.id := by simpa using hb
    rw [hid]
    refine Nat.ne_of_lt ?_
    rcases List.mem_append.1 ha with ha | ha
    · exact (h.result a ha).lt_length
    · obtain ⟨u, hu, rfl⟩ := List.mem_map.1 ha
      exact (h.holds u (hscope ▸ hu)).lt_length
  have hnames : ((s₁.scope ++ [v]).map Var.name).Nodup := by
    rw [List.map_append, List.nodup_append]
    refine ⟨he.inv.names, by simp, fun a ha b hb => ?_⟩
    obtain rfl : b = v.name := by simpa using hb
    obtain ⟨u, hu, rfl⟩ := List.mem_map.1 ha
    exact hfresh u (hscope ▸ hu)
  have he' : Emits P s₁ [] [] { s₁ with scope := s₁.scope ++ [v] } := by
    refine ⟨hg, ⟨he.inv.sound, hnames, hids, fun u hu => ?_,
      fun id hid => (he.inv.result id hid).mono hg, he.inv.typed, he.inv.kept,
      he.inv.planned.of_eq rfl rfl rfl⟩,
      by simp, by simp, .of_eq rfl rfl rfl rfl⟩
    rcases List.mem_append.1 hu with hu | hu
    · exact (he.inv.holds u hu).mono hg
    · exact List.mem_singleton.1 hu ▸ hv.mono hg
  exact ⟨he.trans_nil he', hv.mono hg, rfl, rfl, rfl, hid, hlen, by rw [← hscope], hfresh⟩

theorem create_scope {x : UnitIndex} {line : Option Nat} {name : String} {ty : Ty} {usage : Usage}
    {v : Var} (h : (create x line name ty usage).Ran s v s') : v.name = name ∧ s'.scope = s.scope := by
  simp only [create, onTypes, onDraft, Build.ran_bind, Build.ran_step, Build.ran_zoom] at h
  obtain ⟨r, s₁, ⟨types, -, h₁⟩, l, s₂, ⟨-, h₂⟩, rfl, rfl⟩ := h
  rw [h₂, h₁]
  exact ⟨rfl, rfl⟩

/-- A variable that is declared comes into scope behind the others, with a name of its own. -/
theorem declare_scope {x : UnitIndex} {function name : String} {line : Option Nat} {ty : Ty}
    {usage : Usage} {v : Var} (h : (declare x function line name ty usage).Ran s v s') :
    v.name = name ∧ s'.scope = s.scope ++ [v] ∧ ∀ u ∈ s.scope, u.name ≠ name := by
  simp only [declare, Build.ran_bind, Build.ran_get] at h
  obtain ⟨_, _, ⟨rfl, rfl⟩, h⟩ := h
  split at h
  · simp at h
  rename_i s hany
  simp only [Build.ran_bind, Build.ran_step, Build.ran_pure] at h
  obtain ⟨v, s₁, hc, _, _, ⟨-, rfl⟩, rfl, rfl⟩ := h
  obtain ⟨hname, hscope⟩ := create_scope hc
  exact ⟨hname, by rw [hscope], by simpa using hany⟩

/-- A name that was not in scope is found as soon as it is declared. -/
theorem lookup_eq (cx : Context) (name : String) (e : Expr) :
    lookup cx name e = (do
      let v ← match (← get).scope.find? fun v => v.name = name with
        | some v => pure v
        | none =>
          match cx.index.global? name with
          | none => throw (.malformed (.undeclared name cx.function.name))
          | some ty => declare cx.index cx.function.name cx.line name ty .global
      check (sameType e.text e.ty v.name v.ty)
      return v) := by
  refine Build.bind_congr_of_ran fun s t _ hget => ?_
  obtain ⟨rfl, rfl⟩ := Build.ran_get.1 hget
  clear hget
  rename_i s
  have hsame : (get : LowerM State).runOn s = .ok (.ok s, s) := rfl
  cases hf : s.scope.find? fun v => v.name = name with
  | some v =>
    have hany : s.scope.any (fun v => v.name = name) = true :=
      List.any_eq_true.2 ⟨v, List.mem_of_find?_eq_some hf, by simpa using List.find?_some hf⟩
    simp only [hany, if_true, pure_bind, Build.runOn_bind, hsame, hf, Build.runOn_pure]
  | none =>
    have hany : s.scope.any (fun v => v.name = name) = false := by simpa using hf
    simp only [hany, Bool.false_eq_true, if_false, declareGlobal]
    cases cx.index.global? name with
    | none => simp only [Build.runOn_bind, Build.runOn_throw]
    | some ty =>
      simp only [bind_assoc, pure_bind]
      refine congrArg (Build.runOn · s) (Build.bind_congr_of_ran fun t v t' hd => ?_)
      obtain ⟨hname, hscope, hfresh⟩ := declare_scope hd
      have hget : (get : LowerM State).runOn t' = .ok (.ok t', t') := rfl
      have hfound : t'.scope.find? (fun v => v.name = name) = some v := by
        rw [hscope, List.find?_append, List.find?_eq_none.2 (by simpa using hfresh)]
        simp [hname]
      simp only [Build.runOn_bind, hget, hfound]

/-- An operand names a variable in scope of a type that agrees with the one it is written with. -/
theorem lookup_ran (hx : cx.index.Closed S) (hl : cx.LineKnown) (h : s.Inv (cx.setting S))
    {name : String} {e : Expr} {v : Var} (hr : (lookup cx name e).Ran s v s') :
    Emits (cx.setting S) s [] [] s' ∧ v ∈ s'.scope ∧ v.name = name ∧ e.ty.agrees v.ty := by
  rw [lookup_eq] at hr
  simp only [Build.ran_bind, Build.ran_get] at hr
  obtain ⟨_, _, ⟨rfl, rfl⟩, hr⟩ := hr
  rename_i s
  cases hf : s.scope.find? fun v => v.name = name with
  | some u =>
    simp only [hf, check, Build.ran_bind, Build.ran_ofExcept, Build.ran_pure] at hr
    obtain ⟨_, _, ⟨rfl, rfl⟩, _, _, ⟨hty, rfl⟩, rfl, rfl⟩ := hr
    exact ⟨.refl h, List.mem_of_find?_eq_some hf, by simpa using List.find?_some hf,
      sameType_eq_ok_iff.1 hty⟩
  | none =>
    cases hg : cx.index.global? name with
    | none => simp [hf, hg] at hr
    | some ty =>
      simp only [hf, hg, check, Build.ran_bind, Build.ran_ofExcept, Build.ran_pure] at hr
      obtain ⟨u, s₁, hd, _, _, ⟨hty, rfl⟩, rfl, rfl⟩ := hr
      obtain ⟨he, hv, hname, -, -, -, -, hscope, -⟩ := declare_ran (P := cx.setting S) hx hl h
        (hx.global?_mem hg) (show Declared (cx.setting S) name ty .global from hg) hd
      exact ⟨he, by simp [hscope], hname, sameType_eq_ok_iff.1 hty⟩

/-! ### Labels -/

/-- A step on the blocks, which leaves everything else as it is. -/
theorem State.Inv.of_blocks (h : s.Inv P) {table : Flo.Table Flo.Block}
    {blocks pending : List (Nat × Nat)} {exitBlock : Option Nat} (hb : s.blocks <+: blocks)
    (he : ∀ id, s.exitBlock = some id → exitBlock = some id)
    (hlen : s.rows.length ≤ table.rows.length)
    (hp : Planned P { s with
      draft := { s.draft with object := { s.draft.object with blocks := table } }
      blocks := blocks, exitBlock := exitBlock, pending := pending }) :
    let s' : State := { s with
      draft := { s.draft with object := { s.draft.object with blocks := table } }
      blocks := blocks, exitBlock := exitBlock, pending := pending }
    s.Grows s' ∧ s'.Inv P := by
  intro s'
  have hg : s.Grows s' := { State.Grows.refl s with blocks := hb, exitBlock := fun {id} => he id }
  exact ⟨hg, h.sound, h.names, h.ids, fun v hv => (h.holds v hv).mono hg,
    fun id hid => (h.result id hid).mono hg, h.typed, h.kept.of_blocks hlen s.draft.object.symbols,
    hp⟩

/-- The ids stay a row without gaps when one block is added. -/
theorem Planned.ids_append (h : Planned P s) (b : Flo.Block) :
    (s.rows.length :: (s.blocks.map Prod.snd ++ s.exitBlock.toList)).Perm
      (List.range' 1 ((s.rows ++ [b]).length - 1)) := by
  have hlen : (s.rows ++ [b]).length - 1 = s.rows.length - 1 + 1 := by
    have := h.rows_pos
    simp only [List.length_append, List.length_singleton]
    omega
  have hlast : 1 + (s.rows.length - 1) = s.rows.length := by
    have := h.rows_pos
    omega
  rw [hlen, List.range'_1_concat, hlast]
  exact (h.ids.cons _).trans (List.perm_append_singleton _ _).symm

/-- A label has its block already. -/
theorem enqueue_of_target {label id : Nat} (ht : s.target? label = some id) :
    enqueue (s.blocks.map Prod.fst) [label] = s.blocks.map Prod.fst := by
  by_cases hl : label = exitIndex
  · exact if_pos (.inl hl)
  · exact enqueue_of_mem (List.mem_map_of_mem (State.mem_of_target? ht hl))

/-- A branch to a block that is there changes nothing. -/
theorem Emits.of_target (h : s.Inv P) {label id : Nat} (ht : s.target? label = some id) :
    Emits P s [] [label] s :=
  { Emits.refl h with
    schedules := ⟨⟨[], by simp, by simp, by simp⟩, (enqueue_of_target ht).symm, .inl rfl,
      List.prefix_rfl, by simp [ht]⟩ }

/-- The block that leaves the function is added to the others. -/
theorem Planned.insert_exit (h : Planned P s) (he : s.exitBlock = none) :
    Planned P { s with
      draft := { s.draft with object := { s.draft.object with
        blocks := (s.draft.object.blocks.insert ⟨none, .usable, [], .ret P.returns, []⟩).2 } }
      exitBlock := some s.rows.length } := by
  set b : Flo.Block := ⟨none, .usable, [], .ret P.returns, []⟩ with hb
  have hrows := s.draft.object.blocks.rows_insert b
  refine ⟨h.labels, h.declared, ?_, ?_, ?_⟩
  · have hids := h.ids_append b
    rw [he] at hids
    simp only [State.rows, hrows, Option.toList_some, Option.toList_none,
      List.append_nil] at hids ⊢
    exact (List.perm_append_singleton _ _).trans hids
  · simpa only [State.rows, hrows] using h.null_append b
  · intro id hid
    obtain rfl : s.rows.length = id := Option.some.inj hid
    simp [State.rows, hb]

/-- A label gets a block, whatever is in it. -/
theorem Planned.insert_label (h : Planned P s) (b : Flo.Block) {label : Nat}
    (hl : label ≠ exitIndex) (hdecl : (P.function.block? label).isSome)
    (hnew : label ∉ s.blocks.map Prod.fst) :
    Planned P { s with
      draft := { s.draft with object := { s.draft.object with
        blocks := (s.draft.object.blocks.insert b).2 } }
      blocks := s.blocks ++ [(label, s.rows.length)]
      pending := s.pending ++ [(label, s.rows.length)] } := by
  have hrows := s.draft.object.blocks.rows_insert b
  refine ⟨?_, ?_, ?_, ?_, ?_⟩
  · rw [List.map_append, List.nodup_append]
    refine ⟨h.labels, by simp, fun a ha c hc => ?_⟩
    obtain rfl : c = label := by simpa using hc
    exact fun heq => hnew (heq ▸ ha)
  · intro p hmem
    rcases List.mem_append.1 hmem with hmem | hmem
    · exact h.declared p hmem
    · obtain rfl := List.mem_singleton.1 hmem
      exact ⟨hl, hdecl⟩
  · have hids := h.ids_append b
    simp only [State.rows, hrows, List.map_append, List.map_cons, List.map_nil] at hids ⊢
    refine List.Perm.trans ?_ hids
    rw [List.append_assoc, List.singleton_append]
    exact List.perm_middle
  · simpa only [State.rows, hrows] using h.null_append b
  · intro id hid
    have hrow := h.exitRow id hid
    have hlt := (List.getElem?_eq_some_iff.1 hrow).1
    simp only [State.rows, hrows]
    rw [List.getElem?_append_left hlt, hrow]

/-- The block that leaves the function. -/
theorem exitBlock_ran (h : s.Inv (cx.setting S)) {id : Nat} (hr : (exitBlock cx).Ran s id s') :
    s'.exitBlock = some id ∧ s'.vars = s.vars ∧ Emits (cx.setting S) s [] [exitIndex] s' := by
  simp only [exitBlock, Build.ran_bind, Build.ran_get] at hr
  obtain ⟨_, _, ⟨rfl, rfl⟩, hr⟩ := hr
  rename_i s
  cases he : s.exitBlock with
  | some id' =>
    simp only [he, Build.ran_pure] at hr
    obtain ⟨rfl, rfl⟩ := hr
    exact ⟨he, rfl, .of_target h (by rw [State.target?, if_pos rfl, he])⟩
  | none =>
    simp only [he, Build.ran_bind, Build.ran_step, Build.ran_pure, onDraft, Flo.Draft.addBlock] at hr
    obtain ⟨_, _, ⟨rfl, rfl⟩, _, _, ⟨-, rfl⟩, rfl, rfl⟩ := hr
    rw [Flo.Table.fst_insert]
    obtain ⟨hg, hinv⟩ := h.of_blocks List.prefix_rfl (by simp [he]) (by simp)
      (h.planned.insert_exit he)
    refine ⟨rfl, rfl, hg, hinv, by simp, by simp, ⟨⟨[], by simp, by simp, by simp⟩, rfl,
      .inr (by simp), by simp [State.rows], by simp [State.target?]⟩⟩

/-- A label has its block from the first time on that something branches to it. -/
theorem blockFor_ran (h : s.Inv (cx.setting S)) {label id : Nat}
    (hr : (blockFor cx label).Ran s id s') :
    s'.target? label = some id ∧ s'.vars = s.vars ∧ Emits (cx.setting S) s [] [label] s' := by
  unfold blockFor at hr
  split at hr
  · rename_i hl
    obtain ⟨hid, hv, he⟩ := exitBlock_ran h hr
    exact ⟨by rw [State.target?, if_pos hl, hid], hv, hl ▸ he⟩
  rename_i hl
  simp only [Build.ran_bind, Build.ran_get] at hr
  obtain ⟨_, _, ⟨rfl, rfl⟩, hr⟩ := hr
  rename_i s
  cases hlook : s.blocks.lookup label with
  | some id' =>
    simp only [hlook, Build.ran_pure] at hr
    obtain ⟨rfl, rfl⟩ := hr
    have ht : s'.target? label = some id := by rw [State.target?, if_neg hl, hlook]
    exact ⟨ht, rfl, .of_target h ht⟩
  | none =>
    simp only [hlook] at hr
    split at hr
    · simp at hr
    rename_i hdecl
    simp only [Build.ran_bind, Build.ran_step, Build.ran_pure, onDraft, Flo.Draft.reserveBlock,
      Flo.Table.reserve] at hr
    obtain ⟨_, _, ⟨rfl, rfl⟩, _, _, ⟨-, rfl⟩, rfl, rfl⟩ := hr
    rw [Flo.Table.fst_insert]
    have hnew : label ∉ s.blocks.map Prod.fst := by
      intro hmem
      obtain ⟨p, hp, rfl⟩ := List.mem_map.1 hmem
      rw [List.lookup_eq_none_iff] at hlook
      simpa using hlook p hp
    have hsome : (cx.function.block? label).isSome := by
      simpa [Option.isSome_iff_ne_none] using hdecl
    obtain ⟨hg, hinv⟩ := h.of_blocks (List.prefix_append _ _) (fun _ hid => hid)
      (by simp) (h.planned.insert_label _ hl hsome hnew)
    have htarget : List.lookup label (s.blocks ++ [(label, s.rows.length)]) =
        some s.rows.length := by
      simp [List.lookup_append, hlook]
    refine ⟨by rw [State.target?, if_neg hl, htarget], rfl, hg, hinv, by simp, by simp,
      ⟨⟨[(label, s.rows.length)], rfl, rfl, by simp⟩, ?_, .inl rfl, ?_, ?_⟩⟩
    · rw [enqueue_of_not_mem hl hnew, List.map_append, List.map_singleton]
    · simp [State.rows]
    · simp only [List.mem_singleton, forall_eq, State.target?, if_neg hl, htarget]
      rfl

theorem blockFor_mapM_ran (h : s.Inv (cx.setting S)) {labels ids : List Nat}
    (hr : (labels.mapM (blockFor cx)).Ran s ids s') :
    labels.map s'.target? = ids.map some ∧ s'.vars = s.vars ∧
      Emits (cx.setting S) s [] labels s' := by
  induction labels generalizing s ids with
  | nil =>
    obtain ⟨rfl, rfl⟩ := Build.ran_mapM_nil.1 hr
    exact ⟨rfl, rfl, .refl h⟩
  | cons label labels ih =>
    obtain ⟨id, s₁, rest, hid, hrest, rfl⟩ := Build.ran_mapM_cons.1 hr
    obtain ⟨ht, hv, he⟩ := blockFor_ran h hid
    obtain ⟨hts, hvs, hes⟩ := ih he.inv hrest
    exact ⟨by rw [List.map_cons, List.map_cons, hts, hes.grows.target? ht], hvs.trans hv,
      he.trans hes⟩

end GimpleLowering.Lowering

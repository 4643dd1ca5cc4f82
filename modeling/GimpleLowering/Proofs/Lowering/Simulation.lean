import GimpleLowering.Proofs.Flo.Semantics
import GimpleLowering.Proofs.Gimple.Semantics
import GimpleLowering.Proofs.Lowering.Functions

/-!
# Stores and machines

All variables of the source have variables of their own in the machine, and the code uses the ones
that are left as temporaries. The temporaries are numbered as they are made, so code that was
emitted later changes none that earlier code has set: what was read stays as it is until it is used.

## Main definitions

* `Lowering.Matches` — the machine is in the state that a store describes
* `Lowering.Unchanged` — only later temporaries are different
* `Lowering.Settled` — a variable has a value and keeps it

## Main results

* `Lowering.IsConstant.value?` — the bits of a constant stand for its value
* `Lowering.IsSlot.agrees_parts` — a record that is taken apart
* `Lowering.IsFunction.get_of_mem`, `set_of_mem` — variables with names
-/

namespace GimpleLowering

open Gimple Layout

namespace Lowering

/-! ### Constants -/

theorem twosComplement_signed32 {i : Int} (h : -2147483648 ≤ i ∧ i < 2147483648) :
    Flo.twosComplement 32 (i % 4294967296).toNat = i := by
  unfold Flo.twosComplement
  split <;> omega

theorem twosComplement_signed64 {i : Int}
    (h : -9223372036854775808 ≤ i ∧ i < 9223372036854775808) :
    Flo.twosComplement 64 (i % 18446744073709551616).toNat = i := by
  unfold Flo.twosComplement
  split <;> omega

/-- The bits of an integer constant stand for the integer. -/
theorem value?_integerConstant {typ : Flo.Ty} {i : Int} {c : Flo.Constant}
    (h : integerConstant typ i = .ok c) : c.value? = .ok (.integer i) := by
  unfold integerConstant at h
  split at h
  · cases h
  split at h
  · cases h
  rename_i hfits
  have hfits : fits typ i = true := by simpa using hfits
  rcases fits_eq_true_iff.1 hfits with ⟨rfl, hi⟩ | ⟨rfl, hi⟩
  · obtain rfl := Except.ok.inj h
    simp only [Flo.Constant.value?, Flo.Constant.signed32, twosComplement_signed32 hi]
  · obtain rfl := Except.ok.inj h
    simp only [Flo.Constant.value?, Flo.Constant.signed64, twosComplement_signed64 hi]

theorem value?_ofBool_true : (Flo.Constant.ofBool true).value? = .ok (.truth true) := rfl

/-- The runtime constant has the value of the constant. -/
theorem IsConstant.value? {x : UnitIndex} {w : State} {e : Expr} {c : Flo.Constant}
    (h : IsConstant x w e c) (Q : Program) (σ : Store) :
    ∃ value, Q.eval σ e = .ok value ∧ c.value? = .ok value := by
  cases h with
  | integer represents constant => exact ⟨_, rfl, value?_integerConstant constant⟩
  | @truth value =>
    refine ⟨_, rfl, ?_⟩
    by_cases hv : value = 0 <;> simp [Flo.Constant.value?, Flo.Constant.ofBool, hv]
  | rounded => exact ⟨_, rfl, by simp [Flo.Constant.value?, Flo.Constant.ofDouble]⟩
  | @null base rep represents =>
    have htyp : ∃ pointee nullable, rep.valueType = .handle pointee nullable := by
      cases represents with
      | recordHandle => exact ⟨_, _, rfl⟩
      | cell => exact ⟨_, _, rfl⟩
      | record isRecord => simp [Ty.isRecord] at isRecord
    obtain ⟨pointee, nullable, htyp⟩ := htyp
    exact ⟨_, rfl, by simp [Flo.Constant.value?, Flo.Constant.null, htyp]⟩
  | real => exact ⟨_, rfl, by simp [Flo.Constant.value?, Flo.Constant.ofDouble]⟩

/-! ### Stores and machines -/

/-- The program that the function is part of. -/
def Setting.program (P : Setting) (ps : Polyfills) (R : Runtime) : Program :=
  ⟨P.index, ps, P.function, R⟩

/-- The machine is in the state that the store describes, where `idOf` is the variable for a name
and `returns` are the variables for the result. -/
structure Matches (f : Function) (idOf : String → Nat) (returns : List Nat) (σ : Store)
    (M : Flo.Machine) : Prop where
  memory : M.memory = σ.memory
  locals : ∀ {name : String}, f.Declares name → M.frame (idOf name) = σ.locals name
  result : ∀ id ∈ returns, M.frame id = σ.result

/-- The memory can be anything, as long as it is the same on both sides. -/
theorem Matches.withMemory {f : Function} {idOf : String → Nat} {returns : List Nat} {σ : Store}
    {M : Flo.Machine} (h : Matches f idOf returns σ M) (memory : Memory) :
    Matches f idOf returns { σ with memory } { M with memory } :=
  ⟨rfl, h.locals, h.result⟩

/-- The variable for a name that is in scope. -/
def State.idOf (w : State) (name : String) : Nat :=
  ((w.scope.find? fun v => v.name = name).map Var.id).getD 0

/-- The variable is a temporary of some code: it has no name. -/
def IsTemp (w : State) (v : Nat) : Prop := ∃ row, w.vars[v]? = some row ∧ row.diagnostics = []

/-- Only temporaries from `n` on are different. -/
structure Unchanged (w : State) (n : Nat) (M M' : Flo.Machine) : Prop where
  memory : M'.memory = M.memory
  frame : ∀ {v : Nat}, v < n ∨ ¬ IsTemp w v → M'.frame v = M.frame v

/-- The variable has the value, and keeps it when temporaries from `m` on change. -/
structure Settled (w : State) (m : Nat) (M : Flo.Machine) (v : Nat) (value : Value) : Prop where
  kept : v < m ∨ ¬ IsTemp w v
  get : w.draft.object.get M v = .ok value

section

variable {w : State} {n m : Nat} {M M' M'' : Flo.Machine} {v : Nat} {value : Value}

theorem Unchanged.refl (w : State) (n : Nat) (M : Flo.Machine) : Unchanged w n M M :=
  ⟨rfl, fun _ => rfl⟩

theorem Unchanged.mono (h : Unchanged w m M M') (hle : n ≤ m) : Unchanged w n M M' :=
  ⟨h.memory, fun hv => h.frame (hv.imp_left fun hlt => Nat.lt_of_lt_of_le hlt hle)⟩

theorem Unchanged.trans (h : Unchanged w n M M') (h' : Unchanged w n M' M'') :
    Unchanged w n M M'' :=
  ⟨h'.memory.trans h.memory, fun hv => (h'.frame hv).trans (h.frame hv)⟩

theorem Unchanged.get (h : Unchanged w n M M') (o : Flo.Object) (hv : v < n ∨ ¬ IsTemp w v) :
    o.get M' v = o.get M v := by
  unfold Flo.Object.get
  split
  · rw [h.frame hv]
  · rw [h.memory]
  · rfl
  · rfl

theorem Settled.mono (h : Settled w n M v value) (hu : Unchanged w n M M') (hle : n ≤ m) :
    Settled w m M' v value :=
  ⟨h.kept.imp_left fun hlt => Nat.lt_of_lt_of_le hlt hle, (hu.get _ h.kept).trans h.get⟩

/-- Variables that have values can be read. -/
theorem Settled.mapM {vs : List Nat} {values : List Value}
    (h : List.Forall₂ (Settled w m M) vs values) : vs.mapM (w.draft.object.get M) = .ok values := by
  induction h with
  | nil => rfl
  | cons hv _ ih =>
    rw [List.mapM_cons, hv.get, ih]
    rfl

/-- A variable among those that have the parts of a record has one of the parts. -/
theorem Settled.of_forall₂ {first count i : Nat} {parts : List Value}
    (h : List.Forall₂ (Settled w m M) (List.range' first count) parts) (hi : i < count) :
    Settled w m M (first + i) (parts.getD i .null) := by
  have hlen : count = parts.length := by simpa using h.length_eq
  have hget := h.get (i := i) (by simpa using hi) (hlen ▸ hi)
  simpa [List.getD_eq_getElem?_getD, hlen ▸ hi] using hget

/-- A value takes the place of one of the parts. -/
theorem Settled.set {vs : List Nat} {values : List Value}
    (h : List.Forall₂ (Settled w m M) vs values) (hv : Settled w m M v value) (i : Nat) :
    List.Forall₂ (Settled w m M) (vs.set i v) (values.set i value) := by
  induction h generalizing i with
  | nil => exact .nil
  | cons hhead htail ih =>
    cases i with
    | zero => exact .cons hv htail
    | succ i => exact .cons hhead (ih i)

theorem linkage?_eq (v : Nat) :
    w.draft.object.linkage? v = (w.vars[v]?).map Flo.Variable.linkage := by
  rw [Flo.Object.linkage?, Flo.Table.get?_eq_rows]

theorem Temp.linkage? {typ : Flo.Ty} (h : Temp w v typ) :
    w.draft.object.linkage? v = some .frame := by
  obtain ⟨row, hrow, -, hlink, -⟩ := h
  rw [linkage?_eq, hrow, Option.map_some, hlink]

theorem Temp.isTemp {typ : Flo.Ty} (h : Temp w v typ) : IsTemp w v := by
  obtain ⟨row, hrow, -, -, hdiag⟩ := h
  exact ⟨row, hrow, hdiag⟩

/-- A temporary that is set has its value from then on. -/
theorem Temp.set {typ : Flo.Ty} (h : Temp w v typ) (M : Flo.Machine) (value : Value) :
    ∃ M', w.draft.object.set M v value = .ok M' ∧ Unchanged w v M M' ∧
      Settled w (v + 1) M' v value := by
  refine ⟨_, Flo.Object.set_frame h.linkage? value, ⟨rfl, fun {u} hu => ?_⟩,
    .inl (Nat.lt_succ_self v), ?_⟩
  · have hne : u ≠ v := by
      rintro rfl
      exact hu.elim (Nat.lt_irrefl u) fun hn => hn h.isTemp
    exact Function.update_of_ne hne _ _
  · rw [Flo.Object.get_frame h.linkage?]
    simp

/-- Code that sets a temporary at the end. -/
theorem Temp.agrees_set {typ : Flo.Ty} (h : Temp w v typ) (M : Flo.Machine) (a : Outcome Value) :
    Agrees (fun value M' => Unchanged w v M M' ∧ Settled w (v + 1) M' v value) a
      (do w.draft.object.set M v (← a)) := by
  cases a with
  | error e => exact .error e
  | ok value =>
    obtain ⟨M', hM', hu, hs⟩ := h.set M value
    change Agrees _ (.ok value) (w.draft.object.set M v value)
    exact hM'.symm ▸ .ok ⟨hu, hs⟩

end

/-! ### Parts of records -/

/-- Setting temporaries sets each of them to its value. -/
theorem setAll_range' {w : State} {first : Nat} {M : Flo.Machine} {values : List Value}
    (ht : ∀ v ∈ List.range' first values.length, ∃ typ, Temp w v typ) :
    ∃ M', w.draft.object.setAll M (List.range' first values.length) values = .ok M' ∧
      Unchanged w first M M' ∧
      List.Forall₂ (Settled w (first + values.length) M') (List.range' first values.length)
        values := by
  simp only [Flo.Object.setAll, List.length_range', if_true]
  induction values generalizing first M with
  | nil => exact ⟨M, rfl, .refl w first M, .nil⟩
  | cons value values ih =>
    rw [List.length_cons, List.range'_succ] at ht ⊢
    obtain ⟨typ, htemp⟩ := ht first List.mem_cons_self
    obtain ⟨M₁, hset, hu, hs⟩ := htemp.set M value
    obtain ⟨M₂, hM₂, hus, hss⟩ := ih (M := M₁) fun v hv => ht v (List.mem_cons_of_mem _ hv)
    rw [Nat.add_right_comm, Nat.add_assoc] at hss
    refine ⟨M₂, ?_, hu.trans (hus.mono (Nat.le_succ first)), .cons ?_ hss⟩
    · rw [List.zip_cons_cons, List.foldlM_cons, hset]
      exact hM₂
    · exact hs.mono hus (by omega)

/-- The field that is accessed stands at the index of its slot. -/
theorem IsSlot.position {P : Program} {w : State} {record : Ty} {struct : Nat} {slots : List Slot}
    {member : String} {slot : Slot} (h : IsSlot P.index w record struct slots member slot) :
    P.position record member = .ok slot.index := by
  obtain ⟨-, hfield, -⟩ := h.laidOut.of_mem h.mem
  obtain ⟨hlt, hget⟩ := List.getElem?_eq_some_iff.1 hfield
  have hfind : (P.index.complete record).fields.findIdx? (fun f => f.name = member) =
      some slot.index := by
    refine List.findIdx?_eq_some_iff_getElem.2 ⟨hlt, by simp [hget, h.name], fun j hj => ?_⟩
    have hne : (P.index.complete record).fields[j].name ≠
        (P.index.complete record).fields[slot.index].name := by
      intro heq
      have hnodup := h.laidOut.names
      have hat : ((P.index.complete record).fields.map (·.name))[j]? =
          ((P.index.complete record).fields.map (·.name))[slot.index]? := by
        have hjlt : j < (P.index.complete record).fields.length := by omega
        simp [List.getElem?_eq_getElem hjlt, List.getElem?_eq_getElem hlt, heq]
      have := (List.getElem?_inj (by simp; omega) hnodup).1 hat
      omega
    rw [hget] at hne
    simpa [h.name] using hne
  rw [Program.position, hfind]

/-- Taking a record apart sets one temporary for each part. -/
theorem IsSlot.agrees_parts {P : Program} {w : State} {record : Ty} {struct : Nat}
    {slots : List Slot} {member : String} {slot : Slot}
    (h : IsSlot P.index w record struct slots member slot) {first : Nat} {M : Flo.Machine}
    (temps : AreTemps w first slots) (note : Flo.Note) (R : Runtime) {whole : Nat} {value : Value}
    (hs : Settled w first M whole value) :
    Agrees (fun parts M' => parts.length = slots.length ∧ Unchanged w first M M' ∧
        List.Forall₂ (Settled w (first + slots.length) M') (List.range' first slots.length) parts)
      (P.parts record value)
      (w.draft.object.exec R M (.destructure whole (List.range' first slots.length) note)) := by
  simp only [Flo.Object.exec, hs.get]
  cases value with
  | record values =>
    by_cases hlen : values.length = slots.length
    · have htemps : ∀ v ∈ List.range' first values.length, ∃ typ, Temp w v typ := by
        intro v hv
        obtain ⟨i, hi, rfl⟩ := List.mem_range'.1 hv
        rw [Nat.one_mul]
        exact ⟨_, temps (List.getElem?_eq_getElem (hlen ▸ hi))⟩
      obtain ⟨M', hM', hu, hall⟩ := setAll_range' htemps
      rw [hlen] at hM' hall
      change Agrees _ _ (w.draft.object.setAll M (List.range' first slots.length) values)
      rw [hM', Program.parts, if_pos (hlen.trans h.laidOut.length_eq)]
      exact .ok ⟨hlen, hu, hall⟩
    · change Agrees _ _ (w.draft.object.setAll M (List.range' first slots.length) values)
      rw [Flo.Object.setAll, if_neg (by simpa using Ne.symm hlen), Program.parts,
        if_neg (h.laidOut.length_eq ▸ hlen)]
      exact .error .stuck
  | _ => exact .error .stuck

/-! ### Names -/

section

variable {P : Setting} {ps : Polyfills} {w : State} {parameters locals : List Var} {entry : Nat}
  {signature : Flo.Signature}

/-- Variables with names are no temporaries. -/
theorem State.Inv.not_isTemp (h : w.Inv P) {v : Var} (hv : v ∈ w.scope) : ¬ IsTemp w v.id := by
  obtain ⟨row, hrow, -, -, hdiag⟩ := (h.holds v hv).row
  rintro ⟨row', hrow', hnil⟩
  obtain rfl := Option.some.inj (hrow.symm.trans hrow')
  exact hdiag hnil

/-- Nor is the variable for the result. -/
theorem State.Inv.not_isTemp_returns (h : w.Inv P) {id : Nat} (hid : id ∈ P.returns) :
    ¬ IsTemp w id := by
  obtain ⟨-, -, row, -, -, hrow, -, -, hdiag⟩ := h.result id hid
  rintro ⟨row', hrow', hnil⟩
  obtain rfl := Option.some.inj (hrow.symm.trans hrow')
  exact hdiag hnil

namespace IsFunction

theorem declares_iff_mem (h : IsFunction P ps w parameters locals entry signature) {name : String} :
    P.function.Declares name ↔ ∃ v ∈ parameters ++ locals, v.name = name := by
  simp only [Function.Declares, ← h.declaresParameters.1, ← h.declaresLocals.1, ← List.map_append,
    List.mem_map, exists_exists_and_eq_and]

/-- The variables of the function are those in scope that are no globals. -/
theorem declares_iff (h : IsFunction P ps w parameters locals entry signature) {v : Var}
    (hv : v ∈ w.scope) : P.function.Declares v.name ↔ v.usage ≠ .global := by
  rw [h.declares_iff_mem]
  constructor
  · rintro ⟨u, hu, hname⟩
    obtain rfl : u = v := List.inj_on_of_nodup_map h.inv.names (h.scope.subset hu) hv hname
    rcases List.mem_append.1 hu with hu | hu
    · simp [h.declaresParameters.2 u hu]
    · simp [h.declaresLocals.2 u hu]
  · intro hne
    have hdecl := (h.inv.holds v hv).declared
    rw [← h.declares_iff_mem]
    cases hu : v.usage with
    | parameter => exact ⟨_, List.mem_append_left _ (hu ▸ hdecl), rfl⟩
    | automatic => exact ⟨_, List.mem_append_right _ (hu ▸ hdecl), rfl⟩
    | returnSlot | temporary =>
      rw [hu] at hdecl
      exact hdecl.elim
    | global => exact absurd hu hne

theorem idOf_eq (h : IsFunction P ps w parameters locals entry signature) {v : Var}
    (hv : v ∈ w.scope) : w.idOf v.name = v.id := by
  cases hf : w.scope.find? fun u => u.name = v.name with
  | none => simpa using List.find?_eq_none.1 hf v hv
  | some u =>
    have hname : u.name = v.name := by simpa using List.find?_some hf
    obtain rfl : u = v :=
      List.inj_on_of_nodup_map h.inv.names (List.mem_of_find?_eq_some hf) hv hname
    simp [State.idOf, hf]

/-- A variable of the function is in scope. -/
theorem exists_of_declares (h : IsFunction P ps w parameters locals entry signature)
    {name : String} (hd : P.function.Declares name) :
    ∃ v ∈ w.scope, v.name = name ∧ v.usage ≠ .global := by
  obtain ⟨v, hv, rfl⟩ := h.declares_iff_mem.1 hd
  have hv := h.scope.subset hv
  exact ⟨v, hv, rfl, (h.declares_iff hv).1 hd⟩

theorem linkage?_of_mem (h : IsFunction P ps w parameters locals entry signature) {v : Var}
    (hv : v ∈ w.scope) : w.draft.object.linkage? v.id = some (linkageOf v.usage v.name) := by
  obtain ⟨row, hrow, -, hlink, -⟩ := (h.inv.holds v hv).row
  rw [linkage?_eq, hrow, Option.map_some, hlink]

theorem not_isTemp_of_mem (h : IsFunction P ps w parameters locals entry signature) {v : Var}
    (hv : v ∈ w.scope) : ¬ IsTemp w v.id :=
  h.inv.not_isTemp hv

theorem not_isTemp_result (h : IsFunction P ps w parameters locals entry signature) {id : Nat}
    (hid : id ∈ P.returns) : ¬ IsTemp w id :=
  h.inv.not_isTemp_returns hid

/-- A variable of the function is in the frame, and a global is in the memory. -/
theorem storage (h : IsFunction P ps w parameters locals entry signature) {v : Var}
    (hv : v ∈ w.scope) :
    (P.function.Declares v.name ∧ w.draft.object.linkage? v.id = some .frame) ∨
      (¬ P.function.Declares v.name ∧ (P.index.global? v.name).isSome ∧
        w.draft.object.linkage? v.id = some (.external v.name)) := by
  have hlink := h.linkage?_of_mem hv
  by_cases hu : v.usage = .global
  · refine .inr ⟨fun hd => (h.declares_iff hv).1 hd hu, ?_, by rw [hlink, linkageOf, if_pos hu]⟩
    have hdecl := (h.inv.holds v hv).declared
    rw [hu] at hdecl
    exact Option.isSome_iff_exists.2 ⟨_, hdecl⟩
  · exact .inl ⟨(h.declares_iff hv).2 hu, by rw [hlink, linkageOf, if_neg hu]⟩

/-! ### Matching -/

variable {R : Runtime} {σ : Store} {M M' : Flo.Machine} {n : Nat}

theorem matches_of_unchanged (h : IsFunction P ps w parameters locals entry signature)
    (hm : Matches P.function w.idOf P.returns σ M) (hu : Unchanged w n M M') :
    Matches P.function w.idOf P.returns σ M' := by
  refine ⟨hu.memory.trans hm.memory, fun {name} hd => ?_, fun id hid => ?_⟩
  · obtain ⟨v, hv, rfl, -⟩ := h.exists_of_declares hd
    rw [← hm.locals hd, h.idOf_eq hv]
    exact hu.frame (.inr (h.not_isTemp_of_mem hv))
  · rw [← hm.result id hid]
    exact hu.frame (.inr (h.not_isTemp_result hid))

/-- The variable for a name has its value. -/
theorem get_of_mem (h : IsFunction P ps w parameters locals entry signature)
    (hm : Matches P.function w.idOf P.returns σ M) {v : Var} (hv : v ∈ w.scope) :
    ∃ value, (P.program ps R).read σ v.name = .ok value ∧
      w.draft.object.get M v.id = .ok value := by
  rcases h.storage hv with ⟨hd, hlink⟩ | ⟨hd, hg, hlink⟩
  · refine ⟨_, if_pos hd, ?_⟩
    rw [Flo.Object.get_frame hlink, ← hm.locals hd, h.idOf_eq hv]
  · refine ⟨_, (if_neg hd).trans (if_pos hg), ?_⟩
    rw [Flo.Object.get_external hlink, hm.memory]

/-- Changing the variable for a name changes what the name stands for, and nothing else. -/
theorem set_of_mem (h : IsFunction P ps w parameters locals entry signature)
    (hm : Matches P.function w.idOf P.returns σ M) {v : Var} (hv : v ∈ w.scope) (value : Value) :
    Agrees (Matches P.function w.idOf P.returns)
      ((P.program ps R).write σ v.name value)
      (w.draft.object.set M v.id value) := by
  rcases h.storage hv with ⟨hd, hlink⟩ | ⟨hd, hg, hlink⟩
  · rw [Flo.Object.set_frame hlink, show (P.program ps R).write σ v.name value = _ from if_pos hd]
    refine .ok ⟨hm.memory, fun {name} hname => ?_, fun id hid => ?_⟩
    · obtain ⟨u, hu, rfl, -⟩ := h.exists_of_declares hname
      rw [h.idOf_eq hu]
      by_cases heq : u = v
      · simp [heq]
      · have hid : u.id ≠ v.id := fun hid => heq (List.inj_on_of_nodup_map
          (List.nodup_append.1 h.inv.ids).2.1 hu hv hid)
        have hnames : u.name ≠ v.name := fun hn => heq (List.inj_on_of_nodup_map h.inv.names hu hv hn)
        simp only [Function.update_of_ne hid, Function.update_of_ne hnames]
        rw [← hm.locals hname, h.idOf_eq hu]
    · have hne : id ≠ v.id := fun heq => List.disjoint_of_nodup_append h.inv.ids hid
        (heq ▸ List.mem_map_of_mem hv)
      simp only [Function.update_of_ne hne]
      exact hm.result id hid
  · rw [Flo.Object.set_external hlink,
      show (P.program ps R).write σ v.name value = _ from (if_neg hd).trans (if_pos hg)]
    exact .ok ⟨by rw [hm.memory], hm.locals, hm.result⟩

/-- Setting the variable for the result sets the result. -/
theorem set_result (h : IsFunction P ps w parameters locals entry signature)
    (hm : Matches P.function w.idOf P.returns σ M) {slot : Nat} (hslot : P.returns = [slot])
    (value : Value) :
    Agrees (Matches P.function w.idOf P.returns) (.ok { σ with result := value })
      (w.draft.object.set M slot value) := by
  have hmem : slot ∈ P.returns := by simp [hslot]
  obtain ⟨-, -, row, -, -, hrow, -, hlink, -⟩ := h.inv.result slot hmem
  have hlink : w.draft.object.linkage? slot = some .frame := by
    rw [linkage?_eq, hrow, Option.map_some, hlink]
  rw [Flo.Object.set_frame hlink]
  refine .ok ⟨hm.memory, fun {name} hd => ?_, fun id hid => ?_⟩
  · obtain ⟨v, hv, rfl, -⟩ := h.exists_of_declares hd
    rw [← hm.locals hd, h.idOf_eq hv]
    have hne : v.id ≠ slot := fun heq => List.disjoint_of_nodup_append h.inv.ids hmem
      (heq ▸ List.mem_map_of_mem hv)
    exact Function.update_of_ne hne _ _
  · obtain rfl : id = slot := by simpa [hslot] using hid
    simp

end IsFunction

end

end Lowering

end GimpleLowering

import GimpleLowering.Proofs.Layout.Termination
import Mathlib.Order.WellFounded

/-!
# Records that contain themselves, exactly

The walk that looks for a record inside of itself puts definitions in the place of forward
references on its way, so the types that it meets do not get smaller. What bounds it is the path: no
record is on it twice, and each of them is written in the type or in a definition. `Walks` is the
walk without any bound, in the order in which it goes through arrays, records and fields; a
derivation of it is a walk that has an end.

A walk is refused exactly if there are records without an end that contain one another
(`Unfounded`). That is said without a path and without a bound. What contains itself at a distance,
through other definitions, through spelled-out records of the same name or through arrays, makes
such a sequence over and over; a record that several fields share does not.

## Main definitions

* `Gimple.Ty.Holds` — the record of which a value of the type consists, or its elements do
* `UnitIndex.Walks` — the walk without a bound
* `UnitIndex.Unfounded` — containment without an end

## Main results

* `UnitIndex.walks_checkContained` — the bound never decides
* `UnitIndex.checkContained_exact` — what is refused, and why
-/

namespace GimpleLowering

open Gimple Relation

/-! ### What a value holds -/

/-- A value of the type is one of the record, or an array of such values at some depth. -/
inductive Gimple.Ty.Holds : Ty → Ty → Prop where
  | record {name : String} {fields : List Field} :
      Holds (.record name fields) (.record name fields)
  | element {base record : Ty} {length : Nat} (h : Holds base record) :
      Holds (.array base length) record

theorem Gimple.Ty.holds_iff {ty record : Ty} : ty.Holds record ↔ ty.storedRecord? = some record := by
  constructor
  · intro h
    induction h with
    | record => rfl
    | element _ ih => exact ih
  · intro h
    induction ty using Ty.induction with
    | record name fields =>
      rw [Ty.storedRecord?, Option.some.injEq] at h
      exact h ▸ .record
    | array base length ih => exact .element (ih h)
    | integer | real | boolean | pointer | reference => cases h

namespace UnitIndex

variable {x : UnitIndex} {path : List Ty} {ty : Ty} {res : Except Error Unit}

/-! ### The walk without a bound -/

mutual

/-- The walk through what a value of the type contains, and its outcome. The records on the way are
`path`. -/
inductive Walks (x : UnitIndex) : (path : List Ty) → Ty → Except Error Unit → Prop where
  /-- Scalars contain nothing, and neither do pointers and references. -/
  | nothing {path : List Ty} {ty : Ty} (noArray : ty.kind ≠ .array) (noRecord : ty.kind ≠ .record) :
      Walks x path ty (.ok ())
  | array {path : List Ty} {base : Ty} {length : Nat} {res : Except Error Unit}
      (elements : Walks x path base res) : Walks x path (.array base length) res
  | again {path : List Ty} {name : String} {fields : List Field}
      (h : x.complete (.record name fields) ∈ path) :
      Walks x path (.record name fields)
        (.error (.invalidLayout (.containsItself (x.complete (.record name fields)))))
  | record {path : List Ty} {name : String} {fields : List Field} {res : Except Error Unit}
      (h : x.complete (.record name fields) ∉ path)
      (contents : WalksAll x (x.complete (.record name fields) :: path)
        (x.complete (.record name fields)).fields res) :
      Walks x path (.record name fields) res

/-- The walk through the fields of a record, which stops at the first one that is refused. -/
inductive WalksAll (x : UnitIndex) : (path : List Ty) → List Field → Except Error Unit → Prop where
  | nil {path : List Ty} : WalksAll x path [] (.ok ())
  | refused {path : List Ty} {f : Field} {rest : List Field} {e : Error}
      (h : Walks x path f.ty (.error e)) : WalksAll x path (f :: rest) (.error e)
  | cons {path : List Ty} {f : Field} {rest : List Field} {res : Except Error Unit}
      (h : Walks x path f.ty (.ok ())) (others : WalksAll x path rest res) :
      WalksAll x path (f :: rest) res

end

mutual

/-- A walk has one outcome. -/
theorem Walks.unique {path : List Ty} {ty : Ty} {res res' : Except Error Unit} :
    Walks x path ty res → Walks x path ty res' → res = res'
  | .nothing noArray noRecord, h' => by
    cases h' with
    | nothing => rfl
    | array => exact absurd rfl noArray
    | again | record => exact absurd rfl noRecord
  | .array elements, h' => by
    cases h' with
    | nothing noArray => exact absurd rfl noArray
    | array elements' => exact elements.unique elements'
  | .again h, h' => by
    cases h' with
    | nothing _ noRecord => exact absurd rfl noRecord
    | again => rfl
    | record h' => exact absurd h h'
  | .record h contents, h' => by
    cases h' with
    | nothing _ noRecord => exact absurd rfl noRecord
    | again h' => exact absurd h' h
    | record _ contents' => exact contents.unique contents'

/-- So has a walk through fields. -/
theorem WalksAll.unique {path : List Ty} {fields : List Field} {res res' : Except Error Unit} :
    WalksAll x path fields res → WalksAll x path fields res' → res = res'
  | .nil, h' => by
    cases h'
    rfl
  | .refused h, h' => by
    cases h' with
    | refused h' => exact h.unique h'
    | cons h' => cases h.unique h'
  | .cons h others, h' => by
    cases h' with
    | refused h' => cases h.unique h'
    | cons _ others' => exact others.unique others'

end

/-- Fields are walked through one after the other. -/
theorem walksAll_forM {check : Field → Except Error Unit} {fields : List Field}
    (h : ∀ f ∈ fields, x.Walks path f.ty (check f)) : x.WalksAll path fields (fields.forM check) := by
  induction fields with
  | nil => exact .nil
  | cons f rest ih =>
    have hf := h f List.mem_cons_self
    have hcons : (f :: rest).forM check = (check f >>= fun _ => rest.forM check) := rfl
    rw [hcons]
    cases hcheck : check f with
    | error e => exact .refused (hcheck ▸ hf)
    | ok u => exact .cons (hcheck ▸ hf) (ih fun g hg => h g (List.mem_cons_of_mem f hg))

/-! ### The bound -/

/-- The path has all records of which the walk could be inside, so it is not longer than the list of
those that are written anywhere. With that much fuel the walk goes as if there was no bound. -/
theorem walks_checkContainedFrom {L : List Ty} (hL : Layout.Supply x L) {fuel : Nat}
    (hty : Layout.Supply.Has x L ty) (hnodup : path.Nodup) (hpath : path ⊆ L)
    (hfuel : L.length < fuel + path.length) : x.Walks path ty (x.checkContainedFrom fuel path ty) := by
  induction fuel generalizing path ty with
  | zero =>
    have hle : path.length ≤ L.length := (hnodup.subperm hpath).length_le
    omega
  | succ fuel ih =>
    induction ty using Ty.induction with
    | array base length iharray => exact .array (iharray hty)
    | record name fields =>
      set record := x.complete (.record name fields) with hrecord
      have hmem : record ∈ L := hty _ (Ty.mem_records_self rfl)
      rw [checkContainedFrom, Ty.storedRecord?]
      simp only [← hrecord]
      split
      · rename_i hagain
        exact .again hagain
      · rename_i hnew
        refine .record hnew (walksAll_forM fun f hf => ?_)
        refine ih (hL.has_of_field hmem hf) (List.nodup_cons.2 ⟨hnew, hnodup⟩)
          (List.cons_subset.2 ⟨hmem, hpath⟩) ?_
        rw [List.length_cons]
        omega
    | integer | real | boolean | pointer | reference =>
      exact .nothing (by simp [Ty.kind]) (by simp [Ty.kind])

/-- The records that are written in a type and in the definitions, of which the bound is the
number. -/
theorem exists_supply_recordBound (x : UnitIndex) (ty : Ty) :
    ∃ L, Layout.Supply x L ∧ Layout.Supply.Has x L ty ∧ L.length + 1 = x.recordBound ty := by
  set L := (ty :: x.records.map RecordDefinition.ty).flatMap Ty.records with hL
  have hmem : ∀ {t record : Ty}, t ∈ ty :: x.records.map RecordDefinition.ty → record ∈ t.records →
      record ∈ L := fun ht hr => List.mem_flatMap.2 ⟨_, ht, hr⟩
  have hsupply : Layout.Supply x L := by
    refine ⟨fun record hr part hp => ?_, fun d hd => ?_⟩
    · obtain ⟨t, ht, hr⟩ := List.mem_flatMap.1 hr
      exact hmem ht (Ty.records_trans hr hp)
    · exact hmem (List.mem_cons_of_mem ty (List.mem_map_of_mem hd)) (Ty.mem_records_self rfl)
  refine ⟨L, hsupply, fun record hr => hsupply.complete_mem (hmem List.mem_cons_self hr), ?_⟩
  rw [hL, Ty.length_flatMap_records, recordBound, Ty.recordTotal]

/-- The walk has an end, and its outcome is the one that is computed with the bound. -/
theorem walks_checkContained (x : UnitIndex) (ty : Ty) : x.Walks [] ty (x.checkContained ty) := by
  obtain ⟨L, hL, hty, hlength⟩ := x.exists_supply_recordBound ty
  exact walks_checkContainedFrom hL hty .nil (List.nil_subset L)
    (by rw [List.length_nil, ← hlength]; omega)

/-! ### Containment without an end -/

/-- Records that contain one another without an end: the one that the type holds, then one that a
field of it holds, and so on. All of them are completed. -/
structure Unfounded (x : UnitIndex) (ty : Ty) (chain : Nat → Ty) : Prop where
  start : ∃ root, ty.Holds root ∧ chain 0 = x.complete root
  next : ∀ n, ∃ f ∈ (chain n).fields, ∃ r, f.ty.Holds r ∧ chain (n + 1) = x.complete r

theorem stores_iff {a b : Ty} :
    x.Stores a b ↔ ∃ f ∈ a.fields, ∃ r, f.ty.Holds r ∧ b = x.complete r := by
  simp only [Stores, Ty.holds_iff, eq_comm]

theorem exists_unfounded_iff :
    (∃ chain, x.Unfounded ty chain) ↔
      ∃ root, ty.Holds root ∧ ¬ Acc (Function.swap x.Stores) (x.complete root) := by
  simp only [not_acc_iff_exists_descending_chain, Function.swap, stores_iff]
  constructor
  · rintro ⟨chain, ⟨root, hroot, hstart⟩, hnext⟩
    exact ⟨root, hroot, chain, hstart, hnext⟩
  · rintro ⟨root, hroot, chain, hstart, hnext⟩
    exact ⟨chain, ⟨root, hroot, hstart⟩, hnext⟩

mutual

/-- What a walk comes to the end of is well-founded. -/
theorem Walks.acc {path : List Ty} {ty root : Ty} {res : Except Error Unit} :
    Walks x path ty res → res = .ok () → ty.Holds root →
      Acc (Function.swap x.Stores) (x.complete root)
  | .nothing noArray noRecord, _, hroot => by
    cases hroot with
    | record => exact absurd rfl noRecord
    | element => exact absurd rfl noArray
  | .array elements, hres, .element hroot => elements.acc hres hroot
  | .again _, hres, _ => by cases hres
  | .record _ contents, hres, .record => by
    refine .intro _ fun b hb => ?_
    obtain ⟨f, hf, r, hr, rfl⟩ := stores_iff.1 hb
    exact contents.acc hres f hf hr

theorem WalksAll.acc {path : List Ty} {fields : List Field} {res : Except Error Unit} :
    WalksAll x path fields res → res = .ok () → ∀ f ∈ fields, ∀ {root : Ty}, f.ty.Holds root →
      Acc (Function.swap x.Stores) (x.complete root)
  | .nil, _, f, hf, _, _ => by cases hf
  | .refused _, hres, _, _, _, _ => by cases hres
  | .cons h others, hres, f, hf, root, hroot => by
    rcases List.mem_cons.1 hf with heq | hf
    · exact h.acc rfl (heq ▸ hroot)
    · exact others.acc hres f hf hroot

end

/-- The error names a record that is contained in what the type holds, and in itself. -/
def NamesCycle (x : UnitIndex) (ty : Ty) (e : Error) : Prop :=
  ∃ root record, ty.Holds root ∧ ReflTransGen x.Stores (x.complete root) record ∧
    TransGen x.Stores record record ∧ e = .invalidLayout (.containsItself record)

mutual

/-- What refuses a walk is a record that contains itself, if all records on the way contain what the
walk is at. -/
theorem Walks.namesCycle {path : List Ty} {ty : Ty} {res : Except Error Unit} {e : Error} :
    Walks x path ty res → res = .error e →
      (∀ p ∈ path, ∀ root, ty.Holds root → TransGen x.Stores p (x.complete root)) →
        x.NamesCycle ty e
  | .nothing _ _, hres, _ => by cases hres
  | .array elements, hres, hpath => by
    obtain ⟨root, record, hroot, h⟩ :=
      elements.namesCycle hres fun p hp root hroot => hpath p hp root (.element hroot)
    exact ⟨root, record, .element hroot, h⟩
  | .again h, hres, hpath => by
    obtain rfl := Except.error.inj hres
    exact ⟨_, _, .record, .refl, hpath _ h _ .record, rfl⟩
  | .record _ contents, hres, hpath => by
    obtain ⟨f, hf, r, record, hr, hreach, hcycle⟩ := contents.namesCycle hres fun p hp f hf r hr => by
      have hstores : x.Stores _ (x.complete r) := stores_iff.2 ⟨f, hf, r, hr, rfl⟩
      rcases List.mem_cons.1 hp with rfl | hp
      · exact .single hstores
      · exact (hpath p hp _ .record).tail hstores
    exact ⟨_, record, .record, .head (stores_iff.2 ⟨f, hf, r, hr, rfl⟩) hreach, hcycle⟩

theorem WalksAll.namesCycle {path : List Ty} {fields : List Field} {res : Except Error Unit}
    {e : Error} :
    WalksAll x path fields res → res = .error e →
      (∀ p ∈ path, ∀ f ∈ fields, ∀ root, f.ty.Holds root →
        TransGen x.Stores p (x.complete root)) → ∃ f ∈ fields, x.NamesCycle f.ty e
  | .nil, hres, _ => by cases hres
  | .refused h, hres, hpath =>
    ⟨_, List.mem_cons_self, h.namesCycle hres fun p hp => hpath p hp _ List.mem_cons_self⟩
  | .cons _ others, hres, hpath => by
    obtain ⟨f, hf, h⟩ := others.namesCycle hres fun p hp f hf =>
      hpath p hp f (List.mem_cons_of_mem _ hf)
    exact ⟨f, List.mem_cons_of_mem _ hf, h⟩

end

/-! ### Exactness -/

theorem namesCycle_of_checkContained {e : Error} (h : x.checkContained ty = .error e) :
    x.NamesCycle ty e :=
  (x.walks_checkContained ty).namesCycle h fun _ hp => by cases hp

/-- A type is refused if and only if what it holds contains something that contains itself. -/
theorem checkContained_eq_error_iff :
    (∃ e, x.checkContained ty = .error e) ↔
      ∃ root, ty.Holds root ∧ ¬ Acc (Function.swap x.Stores) (x.complete root) := by
  constructor
  · rintro ⟨e, h⟩
    obtain ⟨root, record, hroot, hreach, hcycle, -⟩ := namesCycle_of_checkContained h
    refine ⟨root, hroot, fun hacc => ?_⟩
    have hrecord : Acc (Function.swap x.Stores) record := by
      clear hcycle
      induction hreach with
      | refl => exact hacc
      | tail _ hbc ih => exact ih.inv hbc
    exact not_transGen_of_acc hrecord (transGen_swap.2 hcycle)
  · rintro ⟨root, hroot, hacc⟩
    cases h : x.checkContained ty with
    | error e => exact ⟨e, rfl⟩
    | ok u => exact absurd ((x.walks_checkContained ty).acc h hroot) hacc

/-- **Containment is decided exactly.** The walk has an end, whatever the definitions of the unit
are; it is refused if and only if there are records that contain one another without an end; and the
error names one that contains itself. -/
theorem checkContained_exact (x : UnitIndex) (ty : Ty) :
    (∀ res, x.Walks [] ty res ↔ x.checkContained ty = res) ∧
      ((∃ e, x.checkContained ty = .error e) ↔ ∃ chain, x.Unfounded ty chain) ∧
        ∀ e, x.checkContained ty = .error e → e.kind = .invalidLayout ∧ x.NamesCycle ty e := by
  refine ⟨fun res => ⟨fun h => (x.walks_checkContained ty).unique h, ?_⟩, ?_, fun e h => ?_⟩
  · rintro rfl
    exact x.walks_checkContained ty
  · rw [checkContained_eq_error_iff, exists_unfounded_iff]
  · have hcycle := namesCycle_of_checkContained h
    refine ⟨?_, hcycle⟩
    obtain ⟨_, _, _, _, _, he⟩ := hcycle
    rw [he]
    rfl

end UnitIndex

end GimpleLowering

import GimpleLowering.Proofs.Flo.Paths
import Mathlib.Data.List.Duplicate
import Mathlib.Data.List.Pairwise

/-!
# Straight-line code

The statements of a block run one after the other, so what a statement relies on is what those
before it have written. There are variables that code makes for itself, and others that it shares
with the rest of the program. Code that is *orderly* writes each of the former once, in the order of
their numbers, and reads none that it has not written. It is put together from orderly pieces: the
numbers of each piece begin where those of the one before end, and a piece may read what the pieces
before it have written.

Which variables are of which kind is left open. What is of neither can be written at any time, but
it can be read only where it was written before.

## Main definitions

* `Flo.Statement.inputs`, `Flo.written` — the variables that are read and written
* `Flo.Ascends` — variables that are written once, in order
* `Flo.Sequenced` — variables that are read only after they were written
* `Flo.Orderly` — both, for variables that are not copied to either

## Main results

* `Flo.Orderly.append` — code is put together from pieces
* `Flo.Ascends.position_unique` — no two statements write the same variable
* `Flo.Sequenced.exists_writer` — what is read was written before
-/

namespace GimpleLowering.Flo

/-- The variable that holds an index. -/
def Member.inputs : Member → List Nat
  | .element index => [index]
  | .whole | .field _ => []

/-- The variables that the statement reads. -/
def Statement.inputs : Statement → List Nat
  | .assignConst _ _ _ | .poisoned _ => []
  | .assign _ source _ => [source]
  | .call _ input _ _ => input
  | .construct _ initializer _ => initializer
  | .destructure whole _ _ => [whole]
  | .load handle member _ _ => handle :: member.inputs
  | .store handle member value _ => handle :: (member.inputs ++ [value])

/-- The variable that the statement copies another one to. -/
def Statement.copied : Statement → List Nat
  | .assign target _ _ => [target]
  | .assignConst _ _ _ | .call _ _ _ _ | .construct _ _ _ | .destructure _ _ _ | .load _ _ _ _
  | .store _ _ _ _ | .poisoned _ => []

theorem Statement.outputs_of_mem_copied {s : Statement} {v : Nat} (h : v ∈ s.copied) :
    v ∈ s.outputs := by
  cases s with
  | assign => exact h
  | _ => cases h

/-- The variables that the code writes. -/
def written (code : List Statement) : List Nat := code.flatMap Statement.outputs

@[simp] theorem written_nil : written [] = [] := rfl

@[simp] theorem written_cons (s : Statement) (code : List Statement) :
    written (s :: code) = s.outputs ++ written code := rfl

@[simp] theorem written_append (code code' : List Statement) :
    written (code ++ code') = written code ++ written code' :=
  List.flatMap_append

theorem mem_written {code : List Statement} {v : Nat} :
    v ∈ written code ↔ ∃ s ∈ code, v ∈ s.outputs :=
  List.mem_flatMap

theorem exists_getElem?_of_mem_written {code : List Statement} {v : Nat} (h : v ∈ written code) :
    ∃ (i : Nat) (s : Statement), code[i]? = some s ∧ v ∈ s.outputs := by
  obtain ⟨s, hs, hv⟩ := mem_written.1 h
  obtain ⟨i, hi⟩ := List.mem_iff_getElem?.1 hs
  exact ⟨i, s, hi, hv⟩

variable {T N : Nat → Prop} {n k m v : Nat} {s t : Statement} {code code' : List Statement}

/-- What the last statement writes is written. -/
theorem mem_written_concat (hv : v ∈ s.outputs) : v ∈ written (code ++ [s]) :=
  mem_written.2 ⟨s, List.mem_append_right _ (List.mem_singleton_self s), hv⟩

/-! ### Writing -/

/-- Of the variables `vs`, those of the kind `T` are in ascending order, from `n` up to `m`. -/
structure Ascends (T : Nat → Prop) (n : Nat) (vs : List Nat) (m : Nat) : Prop where
  le : n ≤ m
  bounds : ∀ v ∈ vs, T v → n ≤ v ∧ v < m
  sorted : vs.Pairwise fun u v => T u → T v → u < v

namespace Ascends

variable {vs vs' : List Nat}

theorem nil (h : n ≤ m) : Ascends T n [] m := ⟨h, List.forall_mem_nil _, .nil⟩

theorem append (h : Ascends T n vs k) (h' : Ascends T k vs' m) : Ascends T n (vs ++ vs') m where
  le := Nat.le_trans h.le h'.le
  bounds v hv hT := by
    rcases List.mem_append.1 hv with hv | hv
    · exact ⟨(h.bounds v hv hT).1, Nat.lt_of_lt_of_le (h.bounds v hv hT).2 h'.le⟩
    · exact ⟨Nat.le_trans h.le (h'.bounds v hv hT).1, (h'.bounds v hv hT).2⟩
  sorted := List.pairwise_append.2 ⟨h.sorted, h'.sorted, fun u hu v hv hTu hTv =>
    Nat.lt_of_lt_of_le (h.bounds u hu hTu).2 (h'.bounds v hv hTv).1⟩

theorem mono (h : Ascends T n vs k) (hle : k ≤ m) : Ascends T n vs m where
  le := Nat.le_trans h.le hle
  bounds v hv hT := (h.bounds v hv hT).imp_right fun hlt => Nat.lt_of_lt_of_le hlt hle
  sorted := h.sorted

/-- Variables that are numbered one after the other. -/
theorem range' (n k : Nat) : Ascends T n (List.range' n k) (n + k) where
  le := Nat.le_add_right n k
  bounds _ hv _ := List.mem_range'_1.1 hv
  sorted := (List.pairwise_lt_range' 1).imp fun h _ _ => h

/-- Variables of other kinds. -/
theorem of_forall_not (hle : n ≤ m) (h : ∀ v ∈ vs, ¬ T v) : Ascends T n vs m where
  le := hle
  bounds v hv hT := absurd hT (h v hv)
  sorted := List.pairwise_of_forall_mem_list fun u hu _ _ hTu => absurd hTu (h u hu)

/-- A statement writes a variable of the kind only once. -/
theorem count_eq_one (h : Ascends T n (written code) m) (hs : s ∈ code) (hT : T v)
    (hv : v ∈ s.outputs) : s.outputs.count v = 1 := by
  have hsorted := (List.pairwise_flatMap.1 h.sorted).1 s hs
  refine Nat.le_antisymm (Nat.not_lt.1 fun htwo => ?_) (List.count_pos_iff.2 hv)
  have htwice : List.Sublist [v, v] s.outputs :=
    List.duplicate_iff_sublist.1 (List.duplicate_iff_two_le_count.2 htwo)
  have hlt := List.rel_of_pairwise_cons (hsorted.sublist htwice) List.mem_cons_self
  exact Nat.lt_irrefl v (hlt hT hT)

/-- Nor do two statements write the same. -/
theorem position_unique (h : Ascends T n (written code) m) {i j : Nat} (hs : code[i]? = some s)
    (ht : code[j]? = some t) (hT : T v) (hvs : v ∈ s.outputs) (hvt : v ∈ t.outputs) : i = j := by
  have hsorted := List.pairwise_iff_getElem.1 (List.pairwise_flatMap.1 h.sorted).2
  obtain ⟨hi, rfl⟩ := List.getElem?_eq_some_iff.1 hs
  obtain ⟨hj, rfl⟩ := List.getElem?_eq_some_iff.1 ht
  rcases Nat.lt_trichotomy i j with hlt | heq | hlt
  · exact absurd (hsorted i j hi hj hlt v hvs v hvt hT hT) (Nat.lt_irrefl v)
  · exact heq
  · exact absurd (hsorted j i hj hi hlt v hvt v hvs hT hT) (Nat.lt_irrefl v)

end Ascends

/-! ### Reading -/

/-- A variable is read only if it is of the kind `N` or one of `known`, or after it was written. -/
def Sequenced (N : Nat → Prop) : (known : List Nat) → List Statement → Prop
  | _, [] => True
  | known, s :: rest => (∀ v ∈ s.inputs, N v ∨ v ∈ known) ∧ Sequenced N (known ++ s.outputs) rest

namespace Sequenced

variable {known known' : List Nat}

theorem mono (h : Sequenced N known code) (hsub : ∀ v ∈ known, v ∈ known') :
    Sequenced N known' code := by
  induction code generalizing known known' with
  | nil => trivial
  | cons s rest ih =>
    refine ⟨fun v hv => (h.1 v hv).imp_right (hsub v), ih h.2 fun v hv => ?_⟩
    rcases List.mem_append.1 hv with hv | hv
    · exact List.mem_append_left _ (hsub v hv)
    · exact List.mem_append_right _ hv

theorem append (h : Sequenced N known code) (h' : Sequenced N (known ++ written code) code') :
    Sequenced N known (code ++ code') := by
  induction code generalizing known with
  | nil => simpa using h'
  | cons s rest ih => exact ⟨h.1, ih h.2 (by simpa using h')⟩

/-- What a statement reads is of the kind `N` or known, or a statement before has written it. -/
theorem exists_writer (h : Sequenced N known code) {i : Nat} (hs : code[i]? = some s)
    (hv : v ∈ s.inputs) :
    N v ∨ v ∈ known ∨ ∃ j < i, ∃ t, code[j]? = some t ∧ v ∈ t.outputs := by
  induction code generalizing known i with
  | nil => cases hs
  | cons first rest ih =>
    cases i with
    | zero =>
      obtain rfl : first = s := Option.some.inj hs
      exact (h.1 v hv).imp_right .inl
    | succ i =>
      rcases ih h.2 (by simpa using hs) with hN | hmem | ⟨j, hj, t, ht, hout⟩
      · exact .inl hN
      · rcases List.mem_append.1 hmem with hmem | hout
        · exact .inr (.inl hmem)
        · exact .inr (.inr ⟨0, Nat.succ_pos i, first, rfl, hout⟩)
      · exact .inr (.inr ⟨j + 1, Nat.succ_lt_succ hj, t, ht, hout⟩)

end Sequenced

/-! ### Both -/

/-- The code writes variables of the kind `T` from `n` up to `m` in their order, each of them once
and not as a copy, and it reads only variables of the kind `N`, those that are `known`, and those
that it has written. -/
structure Orderly (T N : Nat → Prop) (known : List Nat) (n : Nat) (code : List Statement)
    (m : Nat) : Prop where
  writes : Ascends T n (written code) m
  reads : Sequenced N known code
  copies : ∀ s ∈ code, ∀ v ∈ s.copied, ¬ T v

namespace Orderly

variable {known known' : List Nat}

theorem nil (h : n ≤ m) : Orderly T N known n [] m := ⟨.nil h, trivial, List.forall_mem_nil _⟩

/-- Code that reads nothing from before can stand anywhere. -/
theorem closed (h : Orderly T N [] n code m) : Orderly T N known n code m :=
  ⟨h.writes, h.reads.mono (List.forall_mem_nil _), h.copies⟩

theorem append (h : Orderly T N known n code k)
    (h' : Orderly T N (known ++ written code) k code' m) :
    Orderly T N known n (code ++ code') m :=
  ⟨written_append code code' ▸ h.writes.append h'.writes, h.reads.append h'.reads,
    List.forall_mem_append.2 ⟨h.copies, h'.copies⟩⟩

/-- A statement that writes the next variables. -/
theorem fresh (hin : ∀ v ∈ s.inputs, N v ∨ v ∈ known) (hout : s.outputs = List.range' n k)
    (hcopied : s.copied = []) : Orderly T N known n [s] (n + k) := by
  refine ⟨?_, ⟨hin, trivial⟩, List.forall_mem_singleton.2 (by simp [hcopied])⟩
  rw [written_cons, written_nil, List.append_nil, hout]
  exact .range' n k

/-- A statement that writes variables of other kinds only. -/
theorem other (hle : n ≤ m) (hin : ∀ v ∈ s.inputs, N v ∨ v ∈ known)
    (hout : ∀ v ∈ s.outputs, ¬ T v) : Orderly T N known n [s] m := by
  refine ⟨?_, ⟨hin, trivial⟩, List.forall_mem_singleton.2 fun v hv =>
    hout v (Statement.outputs_of_mem_copied hv)⟩
  rw [written_cons, written_nil, List.append_nil]
  exact .of_forall_not hle hout

end Orderly

end GimpleLowering.Flo

import GimpleLowering.Proofs.Except
import GimpleLowering.UnitIndex
import Mathlib.Data.List.Basic
import Mathlib.Tactic.Common

/-!
# The meaning of names

The index of a unit keeps the first signature of each function and refuses any other one for it, so
the order of signatures does not matter: units that have the same signatures in another order are
both refused, or every name means the same in both.

## Main definitions

* `UnitIndex.SameMeaning` — indices that say the same of every name
* `Gimple.CompilationUnit.Siblings` — units with the same signatures and definitions

## Main results

* `UnitIndex.ofUnit_siblings` — the functions of siblings find the same meanings
-/

namespace GimpleLowering

open Gimple

/-- The units differ in nothing but the order of their functions and the bodies of these. -/
structure Gimple.CompilationUnit.Siblings (u u' : CompilationUnit) : Prop where
  sourceFile : u.sourceFile = u'.sourceFile
  signatures : (u.functions.map Function.signature).Perm (u'.functions.map Function.signature)
  globals : u.globals = u'.globals
  records : u.records = u'.records
  declarations : u.declarations = u'.declarations

namespace UnitIndex

/-- The indices say the same of every name. -/
structure SameMeaning (x x' : UnitIndex) : Prop where
  function? : ∀ name, x.function? name = x'.function? name
  globals : x.globals = x'.globals
  records : x.records = x'.records

/-! ### Signatures -/

/-- There is one signature for each function. -/
def IsConsistent (ss : List Signature) : Prop := ∀ s ∈ ss, ∀ t ∈ ss, s.name = t.name → s = t

theorem IsConsistent.of_subset {ss ss' : List Signature} (h : IsConsistent ss) (hs : ss' ⊆ ss) :
    IsConsistent ss' :=
  fun s hm t ht => h s (hs hm) t (hs ht)

/-- The signature that is found does not depend on the order. -/
theorem IsConsistent.find?_eq {ss ss' : List Signature} (h : IsConsistent ss) (hs : ss ⊆ ss')
    (hs' : ss' ⊆ ss) (name : String) :
    ss.find? (fun s => s.name = name) = ss'.find? fun s => s.name = name := by
  cases hf : ss.find? fun s => s.name = name with
  | none =>
    rw [eq_comm, List.find?_eq_none]
    exact fun t ht => List.find?_eq_none.1 hf t (hs' ht)
  | some s =>
    have hmem := List.mem_of_find?_eq_some hf
    have hname : s.name = name := by simpa using List.find?_some hf
    cases hf' : ss'.find? fun s => s.name = name with
    | none => exact absurd hname (by simpa using List.find?_eq_none.1 hf' s (hs hmem))
    | some s' =>
      have hmem' := hs' (List.mem_of_find?_eq_some hf')
      have hname' : s'.name = name := by simpa using List.find?_some hf'
      rw [h s hmem s' hmem' (hname.trans hname'.symm)]

/-- A signature that is added is among the others afterwards. -/
theorem mem_iff_of_addSignature {fs fs' : List Signature} {s t : Signature}
    (h : addSignature fs s = .ok fs') : t ∈ fs' ↔ t ∈ fs ∨ t = s := by
  unfold addSignature at h
  cases hf : fs.find? fun f => f.name = s.name with
  | none =>
    simp only [hf, Except.ok.injEq] at h
    subst h
    simp
  | some f =>
    simp only [hf] at h
    split at h
    · rename_i heq
      obtain rfl := Except.ok.inj h
      subst heq
      exact ⟨.inl, fun ht => ht.elim id fun ht => ht ▸ List.mem_of_find?_eq_some hf⟩
    · cases h

/-- A signature is refused only if there is another one for the same function. -/
theorem exists_addSignature {fs : List Signature} {s : Signature} (h : IsConsistent (s :: fs)) :
    ∃ fs', addSignature fs s = .ok fs' := by
  unfold addSignature
  cases hf : fs.find? fun f => f.name = s.name with
  | none => exact ⟨_, rfl⟩
  | some f =>
    have hname : f.name = s.name := by simpa using List.find?_some hf
    have hmem := List.mem_of_find?_eq_some hf
    exact ⟨fs, if_pos (h f (List.mem_cons_of_mem s hmem) s List.mem_cons_self hname)⟩

theorem consistent_of_addSignature {fs fs' : List Signature} {s : Signature}
    (h : addSignature fs s = .ok fs') (hc : IsConsistent fs) : IsConsistent fs' := by
  unfold addSignature at h
  cases hf : fs.find? fun f => f.name = s.name with
  | none =>
    simp only [hf, Except.ok.injEq] at h
    subst h
    have hnew : ∀ t ∈ fs, t.name ≠ s.name := by simpa using hf
    simp only [IsConsistent, List.mem_append, List.mem_singleton]
    rintro a (ha | rfl) b (hb | rfl) hname
    · exact hc a ha b hb hname
    · exact absurd hname (hnew a ha)
    · exact absurd hname.symm (hnew b hb)
    · rfl
  | some f =>
    simp only [hf] at h
    split at h
    · exact Except.ok.inj h ▸ hc
    · cases h

theorem foldlM_addSignature {fs fs' ss : List Signature}
    (h : ss.foldlM addSignature fs = .ok fs') (hc : IsConsistent fs) :
    IsConsistent fs' ∧ ∀ t, t ∈ fs' ↔ t ∈ fs ∨ t ∈ ss := by
  induction ss generalizing fs with
  | nil =>
    obtain rfl := Except.ok.inj h
    exact ⟨hc, by simp⟩
  | cons s rest ih =>
    rw [List.foldlM_cons] at h
    obtain ⟨gs, hs, h⟩ := Except.of_bind h
    obtain ⟨hc', hmem⟩ := ih h (consistent_of_addSignature hs hc)
    refine ⟨hc', fun t => ?_⟩
    rw [hmem, mem_iff_of_addSignature hs, List.mem_cons, or_assoc]

theorem exists_foldlM_addSignature {fs ss : List Signature} (h : IsConsistent (ss ++ fs)) :
    ∃ fs', ss.foldlM addSignature fs = .ok fs' := by
  induction ss generalizing fs with
  | nil => exact ⟨fs, rfl⟩
  | cons s rest ih =>
    obtain ⟨gs, hs⟩ := exists_addSignature (h.of_subset (List.cons_subset_cons s
      (List.subset_append_right rest fs)))
    rw [List.foldlM_cons, hs]
    refine ih (h.of_subset fun t ht => ?_)
    simp only [List.mem_append, mem_iff_of_addSignature hs, List.cons_append, List.mem_cons] at ht ⊢
    tauto

/-! ### Units -/

/-- An index has the signatures and the globals that were added one by one. -/
theorem ofUnit_eq_ok {u : CompilationUnit} {x : UnitIndex} (h : ofUnit u = .ok x) :
    ∃ functions globals,
      (u.functions.map Function.signature ++ u.declarations).foldlM addSignature [] =
          .ok functions ∧
        u.globals.foldlM addGlobal [] = .ok globals ∧
        x = ⟨u.functions.map Function.name, functions, globals, u.records.foldl addRecord []⟩ := by
  unfold ofUnit at h
  obtain ⟨functions, hf, h⟩ := Except.of_bind h
  obtain ⟨globals, hg, h⟩ := Except.of_bind h
  exact ⟨functions, globals, hf, hg, (Except.ok.inj h).symm⟩

/-- A function that is defined is found with the signature of its definition. -/
theorem function?_of_mem {u : CompilationUnit} {x : UnitIndex} (h : ofUnit u = .ok x)
    {f : Function} (hf : f ∈ u.functions) : x.function? f.name = some f.signature := by
  obtain ⟨fs, gs, hfs, -, rfl⟩ := ofUnit_eq_ok h
  obtain ⟨hc, hmem⟩ := foldlM_addSignature hfs fun _ hs => absurd hs List.not_mem_nil
  have hsig : f.signature ∈ fs :=
    (hmem _).2 (.inr (List.mem_append_left _ (List.mem_map_of_mem hf)))
  change fs.find? _ = _
  cases hfound : fs.find? fun s => s.name = f.name with
  | none => simpa [Function.signature] using List.find?_eq_none.1 hfound f.signature hsig
  | some s =>
    have hname : s.name = f.name := by simpa using List.find?_some hfound
    rw [hc s (List.mem_of_find?_eq_some hfound) f.signature hsig hname]

/-- The functions of siblings find the same meanings, in whatever order they are defined. -/
theorem ofUnit_siblings {u u' : CompilationUnit} (h : u.Siblings u') {x : UnitIndex}
    (hx : ofUnit u = .ok x) : ∃ x', ofUnit u' = .ok x' ∧ x.SameMeaning x' := by
  obtain ⟨fs, gs, hf, hg, rfl⟩ := ofUnit_eq_ok hx
  have hnil : IsConsistent [] := fun _ hs => absurd hs List.not_mem_nil
  have hmem : ∀ s, s ∈ u.functions.map Function.signature ++ u.declarations ↔
      s ∈ u'.functions.map Function.signature ++ u'.declarations := fun s => by
    rw [List.mem_append, List.mem_append, h.signatures.mem_iff, h.declarations]
  obtain ⟨hc, hfs⟩ := foldlM_addSignature hf hnil
  have hsub : u'.functions.map Function.signature ++ u'.declarations ++ [] ⊆ fs := fun s hs => by
    rw [List.append_nil] at hs
    exact (hfs s).2 (.inr ((hmem s).2 hs))
  obtain ⟨fs', hf'⟩ := exists_foldlM_addSignature (hc.of_subset hsub)
  obtain ⟨-, hfs'⟩ := foldlM_addSignature hf' hnil
  refine ⟨⟨u'.functions.map Function.name, fs', gs, u'.records.foldl addRecord []⟩, ?_,
    fun name => hc.find?_eq (fun s hs => ?_) (fun s hs => ?_) name, rfl, ?_⟩
  · rw [ofUnit, hf', ← h.globals, hg]
    rfl
  · exact (hfs' s).2 (.inr ((hmem s).1 (((hfs s).1 hs).resolve_left List.not_mem_nil)))
  · exact (hfs s).2 (.inr ((hmem s).2 (((hfs' s).1 hs).resolve_left List.not_mem_nil)))
  · rw [h.records]

end UnitIndex

end GimpleLowering

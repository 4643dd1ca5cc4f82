import GimpleLowering.Proofs.Compilation
import GimpleLowering.Proofs.Gimple.Wire
import GimpleLowering.Proofs.Lowering.Constants
import GimpleLowering.Proofs.Lowering.References

/-!
# Texts of compiled objects

An object that is compiled from a unit is complete, and its numbers have room in its text: its
identifiers because it refers to nothing but itself, and the lengths and lines in it because they
come from a text. So nothing but a constant can keep it from being written, and what is written is
read back.

## Main results

* `Compiler.run_text` — which objects of a manifest have texts, which are read back
* `Compiler.returningOne_text` — a constant stands in the way of a text
-/

namespace GimpleLowering

open Gimple Layout Lowering

namespace Compiler

/-- The object of each function is complete. It has no text exactly if control can get to a
constant in the function, and a text that it has is read back as the object. -/
theorem run_text {ps : Polyfills} {text : String} {u : CompilationUnit}
    (read : CompilationUnit.ofText text = .ok u) {m : Manifest}
    (run : ({ standard with polyfills := ps } : Compiler).run u = .ok (.ok m)) {name : String}
    {o : Flo.Object} (mem : (name, .ok o) ∈ m.entries) :
    ∃ f ∈ u.functions, f.name = name ∧ o.isComplete ∧
      (o.text = .error .constant ↔ f.TakesConstant) ∧
      (¬ f.TakesConstant → ∃ t, o.text = .ok t ∧ (o.IsCountable → Flo.Object.ofText t = .ok o)) := by
  obtain ⟨x, hx, hm⟩ := run_standard run
  obtain ⟨r, -, hsound, hmem⟩ := mem_lowerUnit (CompilationUnit.closed_occurs hx) hm
  obtain ⟨f, hf, hname, returns, w, parameters, locals, entry, signature, h, hc⟩ := hmem mem
  have hfits := CompilationUnit.fits_of_ofText read
  have huses : o.Uses (o.ids Flo.IsWord Flo.IsLine) := by
    refine hc.uses h hsound (fun hty => ?_) fun {n} hn hmentions => ⟨hn, ?_⟩
    · exact hfits.length_lt hty
    · obtain ⟨b, hb, s, hs, hline⟩ := hmentions
      exact (((hfits.functions f hf).blocks b hb).statements s hs).line n hline
  have hcomplete := hc.isComplete h
  have hconstant : o.statements.rows.any Flo.Statement.assignsConstant ↔ f.TakesConstant := by
    rw [hc.object]
    exact h.assignsConstant_iff
  refine ⟨f, hf, hname, hcomplete, ?_, fun hnone => ?_⟩
  · rw [Flo.Object.text_eq_constant_iff hcomplete, hconstant]
  · obtain ⟨t, ht⟩ := Flo.Object.exists_text hcomplete (hconstant.not.2 hnone)
    refine ⟨t, ht, fun hcountable => ?_⟩
    exact Flo.Object.ofText_text (huses.mono (Flo.Object.ids_le_words hcountable id id)).fits ht

/-- A unit with a function that returns one. -/
def returningOne : CompilationUnit where
  sourceFile := none
  functions := [⟨"one", [], some (.integer 32), 2, [],
    [⟨2, [.ret (some (.integer (.integer 32) 1)) none]⟩]⟩]
  globals := []
  records := []
  declarations := []

/-- The text of `returningOne`, with its records written as arrays. -/
def returningOneText : String :=
  "[null, [[\"one\", [], [\"integer_type\", 32], 2, [],
    [[2, [[\"return\", [\"integer_cst\", [\"integer_type\", 32], 1]]]]]]]]"

theorem ofText_returningOneText : CompilationUnit.ofText returningOneText = .ok returningOne := by
  have h : (CompilationUnit.ofText returningOneText).toOption = some returningOne := by
    decide +kernel
  cases hread : CompilationUnit.ofText returningOneText with
  | error e =>
    rw [hread] at h
    cases h
  | ok u =>
    rw [hread] at h
    rw [Option.some.inj h]

/-- It is compiled, but what it is compiled to has no text. -/
theorem returningOne_text : ∃ m o,
    ({ standard with polyfills := .library } : Compiler).run returningOne = .ok (.ok m) ∧
      ("one", .ok o) ∈ m.entries ∧ o.isComplete ∧ o.text = .error .constant := by
  have hsome : (standard.objectAt returningOne 0).isSome := by decide +kernel
  obtain ⟨o, ho⟩ := Option.isSome_iff_exists.1 hsome
  obtain ⟨m, name, hrun, -⟩ := exists_run_of_objectAt ho
  have hmem : ("one", .ok o) ∈ m.entries := mem_of_objectAt hrun ho rfl
  obtain ⟨f, hf, -, hcomplete, hconstant, -⟩ := run_text ofText_returningOneText hrun hmem
  obtain rfl := List.mem_singleton.1 hf
  exact ⟨m, o, hrun, hmem, hcomplete, hconstant.2 ⟨2, _, .entry, rfl, rfl⟩⟩

end Compiler

end GimpleLowering

import GimpleLowering.Proofs.UnitIndex
import GimpleLowering.Proofs.WellTyped

/-!
# Callers and callees

A call and the function that it goes to are lowered apart, and they are linked by name. The caller
goes by the signature in the index, and the callee has declared its own parameters. What makes them
fit is that there is one signature for each name and one registry for all objects: the variables on
both sides have the runtime types of the same types.

## Main definitions

* `Flo.Object.signature?` — how a function of the object is to be called
* `Flo.Object.Pairs` — variables of two objects that have the same types

## Main results

* `Compiler.run_callsAgree` — calls between the objects of a manifest fit
-/

namespace GimpleLowering

open Gimple Layout Lowering

namespace Flo.Object

/-- The signature at the entry of the function that the object exports under the name. -/
def signature? (o : Object) (name : String) : Option Signature := do
  let entry ← o.symbols.ofLeft? name
  (← o.blocks.get? entry).signature

/-- The variables of two objects have the same types, one by one. -/
def Pairs (o o' : Object) : List Nat → List Nat → Prop :=
  List.Forall₂ fun v v' => ∃ typ, o.HasType v typ ∧ o'.HasType v' typ

variable {x : UnitIndex} {r : Registry} {ps : Polyfills} {o o' : Object} {f : Function}
  {image : Nat → Nat} {signature : Signature}

theorem IsTyped.signature?_eq (h : o.IsTyped x r ps f image signature) :
    o.signature? f.name = some signature := by
  obtain ⟨id, row, hsymbols, hrow, hsignature⟩ := h.entry
  simp [signature?, Pairing.ofLeft?, hsymbols, hrow, hsignature]

theorem IsTyped.length_params (h : o.IsTyped x r ps f image signature) :
    signature.params.length = f.parameters.length := h.params.length_eq

theorem IsTyped.length_returns (h : o.IsTyped x r ps f image signature) :
    signature.returns.length = f.returnType.toList.length := h.controlFlow.returns

/-- What is passed has the types of the parameters. The parameters have types of the runtime, so no
constant is rounded. -/
theorem pairs_params {input params : List Nat} {arguments : List Expr}
    {declared : List Declaration}
    (hinput : Passes x r o input arguments (declared.map Declaration.ty))
    (hparams : List.Forall₂ (fun v (d : Declaration) => ∃ typ, HasValueType x r d.ty typ ∧
      o'.HasType v typ) params declared) : o.Pairs o' input params := by
  induction hparams generalizing input arguments with
  | nil =>
    cases hinput
    exact .nil
  | @cons v' d params declared hparam _ ih =>
    obtain ⟨typ, htyp, hv'⟩ := hparam
    generalize hty : d.ty = ty at htyp
    rw [List.map_cons, hty] at hinput
    cases hinput with
    | typed hasValueType hasType rest =>
      exact .cons ⟨typ, hasValueType.unique htyp ▸ hasType, hv'⟩ (ih rest)
    | rounded unsupported hasType rest =>
      exact .cons ⟨typ, htyp.eq_double.symm ▸ hasType, hv'⟩ (ih rest)

/-- What takes the results has the types of what is returned. -/
theorem pairs_returns {returnType : Option Gimple.Ty} {outputs returns : List Nat}
    (houtputs : Takes x r o returnType outputs) (hreturns : Takes x r o' returnType returns) :
    o.Pairs o' outputs returns := by
  cases returnType with
  | none =>
    rw [show outputs = [] from houtputs, show returns = [] from hreturns]
    exact .nil
  | some ty =>
    obtain ⟨v, typ, rfl, htyp, hv⟩ := houtputs
    obtain ⟨v', typ', rfl, htyp', hv'⟩ := hreturns
    exact .cons ⟨typ, hv, htyp.unique htyp' ▸ hv'⟩ .nil

end Flo.Object

namespace Compiler

/-- Every call from one object of a manifest to the function of another one, or of the same one,
fits: it passes one variable for each parameter and takes the result in one variable, whether or not
the result is used, and the types of the variables on both sides are the same entries of the type
tables, which both objects have in common. -/
theorem run_callsAgree {ps : Polyfills} {u : CompilationUnit} (consistent : u.RecordConsistent)
    {m : Manifest} (run : ({ standard with polyfills := ps } : Compiler).run u = .ok (.ok m))
    {caller callee : String} {o o' : Flo.Object} (hcaller : (caller, .ok o) ∈ m.entries)
    (hcallee : (callee, .ok o') ∈ m.entries) :
    o.types = o'.types ∧ ∃ f ∈ u.functions, f.name = callee ∧
      ∃ signature, o'.signature? callee = some signature ∧
        signature.params.length = f.parameters.length ∧
        signature.returns.length = f.returnType.toList.length ∧
        ∀ {id : Nat} {input outputs : List Nat} {note : Flo.Note},
          o.statements.get? id = some (.call (.external callee) input outputs note) →
            o.Pairs o' input signature.params ∧ o.Pairs o' outputs signature.returns := by
  obtain ⟨x, hx, hm⟩ := run_standard run
  obtain ⟨r, -, -, hmem⟩ := mem_lowerUnit (CompilationUnit.closed_occurs hx) hm
  have hconsistent := consistent.consistent hx
  obtain ⟨f, hf, rfl, returns, w, parameters, locals, entry, own, h, hc⟩ := hmem hcaller
  obtain ⟨g, hg, rfl, returns', w', parameters', locals', entry', signature, h', hc'⟩ :=
    hmem hcallee
  have hcompletes : Completes u.Occurs _ w r o :=
    ⟨hc, hconsistent, fun ty hty => CompilationUnit.occurs_function hf hty⟩
  have hcompletes' : Completes u.Occurs _ w' r o' :=
    ⟨hc', hconsistent, fun ty hty => CompilationUnit.occurs_function hg hty⟩
  have htyped := hcompletes.isTyped h
  have htyped' := hcompletes'.isTyped h'
  refine ⟨htyped.types.trans htyped'.types.symm, g, hg, rfl, signature, htyped'.signature?_eq,
    htyped'.length_params, htyped'.length_returns, fun {id input outputs note} hcall => ?_⟩
  have hwell := hcompletes.wellTyped h hcall (by simp)
  obtain ⟨s, arguments, hs, passes, takes⟩ := hwell.of_external
  obtain rfl := Option.some.inj (hs.symm.trans (UnitIndex.function?_of_mem hx hg))
  exact ⟨Flo.Object.pairs_params passes htyped'.params,
    Flo.Object.pairs_returns takes htyped'.returns⟩

/-- A list of integers. -/
def integerList : RecordDefinition :=
  ⟨"list", [⟨"value", .integer 32⟩, ⟨"next", .pointer (.record "list" [])⟩]⟩

/-- A pointer to the list. -/
def integerListPointer : Ty := .pointer (.record "list" [])

/-- The first function returns what the head of a list holds, and the other one calls it without
using the result. -/
def callingHead : CompilationUnit where
  sourceFile := none
  functions := [
    ⟨"head", [⟨"l", integerListPointer⟩], some (.integer 32), 2, [],
      [⟨2, [.ret (some (.component (.integer 32)
        (.deref (.record "list" []) (.named integerListPointer "l")) "value")) none]⟩]⟩,
    ⟨"ignore", [⟨"m", integerListPointer⟩], none, 2, [],
      [⟨2, [.call "head" [.named integerListPointer "m"] none none, .ret none none]⟩]⟩]
  globals := []
  records := [integerList]
  declarations := []

theorem callingHead_recordConsistent : callingHead.RecordConsistent := by
  have h := CompilationUnit.recordConsistent_of_mem (u := callingHead)
    [.integer 32, .record "list" [], integerListPointer, integerList.ty]
  exact h (by decide) (by decide) (by decide +kernel)

/-- The discarded result goes to a variable of its own. -/
theorem callingHead_callsAgree : ∃ m o o' input output note signature,
    standard.run callingHead = .ok (.ok m) ∧ ("ignore", .ok o) ∈ m.entries ∧
      ("head", .ok o') ∈ m.entries ∧
      o.statements.get? 1 = some (.call (.external "head") input [output] note) ∧
      o'.signature? "head" = some signature ∧ o.Pairs o' input signature.params ∧
      o.Pairs o' [output] signature.returns := by
  have hcall : (standard.objectAt callingHead 1).bind (fun o => o.statements.get? 1) =
      some (.call (.external "head") [1] [2] ⟨[], none⟩) := by decide +kernel
  have hsome : (standard.objectAt callingHead 0).isSome := by decide +kernel
  obtain ⟨o, ho, hget⟩ := Option.bind_eq_some_iff.1 hcall
  obtain ⟨o', ho'⟩ := Option.isSome_iff_exists.1 hsome
  obtain ⟨m, name, hrun, -⟩ := exists_run_of_objectAt ho
  have hmem := mem_of_objectAt hrun ho rfl
  have hmem' := mem_of_objectAt hrun ho' rfl
  obtain ⟨-, f, -, -, signature, hsignature, -, -, hagree⟩ :=
    run_callsAgree callingHead_recordConsistent hrun hmem hmem'
  obtain ⟨hinput, houtput⟩ := hagree hget
  exact ⟨m, o, o', [1], 2, _, signature, hrun, hmem, hmem', hget, hsignature, hinput, houtput⟩

end Compiler

end GimpleLowering

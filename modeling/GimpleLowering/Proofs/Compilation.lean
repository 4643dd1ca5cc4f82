import GimpleLowering.Compilation
import GimpleLowering.Proofs.Lowering.Functions

/-!
# Objects of a unit

The functions of a unit are lowered one after the other from the types of those before, and in the
end all objects get the same types. What an object was when its function was lowered, it still is
in the end, since types are only added.

## Main definitions

* `Compiler.IsOutcome` — an entry of a manifest before the types are complete
* `Compiler.Registers` — the registry in the end of the compilation of a unit

## Main results

* `Compiler.lowerAll_outcomes` — the outcomes are those of lowering the functions
* `Compiler.mem_lowerUnit` — each object of a manifest is that of a function, with all types of
  the unit
-/

namespace GimpleLowering.Compiler

open Gimple Layout Lowering

variable {x : UnitIndex} {ps : Polyfills} {S : Ty → Prop} {u : CompilationUnit}

/-! ### Functions -/

/-- The entry has the outcome of lowering the function, from a registry that only grew since. -/
structure IsOutcome (x : UnitIndex) (ps : Polyfills) (S : Ty → Prop) (source : String)
    (r : Registry) (f : Function) (e : String × Except Failure Flo.Object) : Prop where
  name : e.1 = f.name
  run : ∃ t t', t.Sound x S ∧ (lowerFunction x ps source f).runOn t = .ok (e.2, t') ∧ t'.Grows r

/-- The outcomes are those of the functions, in order. -/
theorem lowerAll_outcomes (hx : x.Closed S) {source : String} {fs : List Function}
    (hS : ∀ f ∈ fs, ∀ ty ∈ f.types, S ty) {types types' : Registry}
    {entries : List (String × Except Failure Flo.Object)} (hs : types.Sound x S)
    (h : lowerAll x ps source fs types = .ok (entries, types')) :
    types'.Sound x S ∧ types.Grows types' ∧
      List.Forall₂ (IsOutcome x ps S source types') fs entries := by
  induction fs generalizing types entries with
  | nil =>
    simp only [lowerAll, Except.ok.injEq, Prod.mk.injEq] at h
    obtain ⟨rfl, rfl⟩ := h
    exact ⟨hs, .refl types, .nil⟩
  | cons f rest ih =>
    obtain ⟨⟨r, t⟩, hf, h⟩ := Except.of_bind h
    obtain ⟨⟨others, t'⟩, hrest, h⟩ := Except.of_bind h
    obtain ⟨rfl, rfl⟩ := Prod.mk.inj (Except.ok.inj h)
    have hev := lowerFunction_keeps hx ps source (hS f (by simp)) types r t hf hs
    obtain ⟨hsound, hgrows, houtcomes⟩ := ih (fun g hg => hS g (by simp [hg])) hev.sound hrest
    exact ⟨hsound, hev.grows.trans hgrows, .cons ⟨rfl, types, t, hs, hf, hgrows⟩ houtcomes⟩

/-! ### Units -/

/-- The registry in the end, when all functions are lowered and the types are completed. -/
def Registers (x : UnitIndex) (ps : Polyfills) (u : CompilationUnit) (r : Registry) : Prop :=
  ∃ entries types res,
    lowerAll x ps (u.sourceFile.getD "") u.functions .empty = .ok (entries, types) ∧
      (finalize x).runOn types = .ok (res, r)

/-- The standard passes leave the unit as it is, with its index. -/
theorem run_standard_eq (hx : UnitIndex.ofUnit u = .ok x) :
    ({ standard with polyfills := ps } : Compiler).run u = (lowerUnit x ps u).map .ok := by
  simp only [run, standard, Pass.run, Pass.runFrom, Pass.step, Pass.indexUnit, hx, bind,
    Except.bind, pure, Except.pure, List.find?_nil, List.foldl_nil, Pass.Results.get?_put, if_true]

/-- The standard passes only fail if the unit cannot be indexed. -/
theorem run_standard_error {e : Error} (h : UnitIndex.ofUnit u = .error e) :
    ({ standard with polyfills := ps } : Compiler).run u = .ok (.error e) := by
  simp [run, standard, Pass.run, Pass.runFrom, Pass.step, Pass.indexUnit, h, bind, Except.bind]

/-- A unit that is compiled was indexed first. -/
theorem run_standard {m : Manifest}
    (h : ({ standard with polyfills := ps } : Compiler).run u = .ok (.ok m)) :
    ∃ x, UnitIndex.ofUnit u = .ok x ∧ lowerUnit x ps u = .ok m := by
  cases hx : UnitIndex.ofUnit u with
  | error e =>
    rw [run_standard_error hx] at h
    cases h
  | ok x =>
    rw [run_standard_eq hx] at h
    obtain ⟨m', hu, hm⟩ := Except.of_map h
    exact ⟨x, rfl, by rw [hu, Except.ok.inj hm]⟩

/-- The outcome of a unit: those of its functions, with the types of the end. -/
theorem lowerUnit_eq_ok {m : Manifest} (h : lowerUnit x ps u = .ok m) :
    ∃ entries types res r,
      lowerAll x ps (u.sourceFile.getD "") u.functions .empty = .ok (entries, types) ∧
        (finalize x).runOn types = .ok (res, r) ∧
        m.entries = entries.map fun e => (e.1, e.2.map fun o => { o with types := r.tables }) := by
  unfold lowerUnit at h
  obtain ⟨⟨entries, types⟩, hall, h⟩ := Except.of_bind h
  obtain ⟨⟨res, r⟩, hfin, h⟩ := Except.of_bind h
  exact ⟨entries, types, res, r, hall, hfin, by rw [← Except.ok.inj h]⟩

/-- Each object of a manifest comes from a function, and has the types of the end. -/
theorem lowerUnit_objects (hx : x.Closed S) (hS : ∀ f ∈ u.functions, ∀ ty ∈ f.types, S ty)
    {m : Manifest} (h : lowerUnit x ps u = .ok m) :
    ∃ r, Registers x ps u r ∧ r.Sound x S ∧
      ∀ {name : String} {o : Flo.Object}, (name, .ok o) ∈ m.entries →
        ∃ f ∈ u.functions, f.name = name ∧ ∃ t o' t', t.Sound x S ∧
          (lowerFunction x ps (u.sourceFile.getD "") f).Ran t o' t' ∧ t'.Grows r ∧
            o = { o' with types := r.tables } := by
  obtain ⟨entries, types, res, r, hall, hfin, hm⟩ := lowerUnit_eq_ok h
  obtain ⟨hsound, -, houtcomes⟩ := lowerAll_outcomes hx hS (.empty x _) hall
  have hev := finalize_keeps hx types res r hfin hsound
  refine ⟨r, ⟨entries, types, res, hall, hfin⟩, hev.sound, fun {name o} hin => ?_⟩
  rw [hm] at hin
  obtain ⟨⟨name', out⟩, hent, heq⟩ := List.mem_map.1 hin
  obtain ⟨rfl, hout⟩ := Prod.mk.inj heq
  obtain ⟨i, hi, hentry⟩ := List.getElem_of_mem hent
  have hi' : i < u.functions.length := houtcomes.length_eq ▸ hi
  have houtcome := houtcomes.get hi' hi
  simp only [List.get_eq_getElem, hentry] at houtcome
  obtain ⟨hname, t, t', ht, hrun, hgrows⟩ := houtcome
  cases out with
  | error e => cases hout
  | ok o' =>
    obtain rfl := Except.ok.inj hout
    exact ⟨_, List.getElem_mem hi', hname.symm, t, o', t', ht, hrun, hgrows.trans hev.grows, rfl⟩

/-- The objects of a unit. -/
theorem mem_lowerUnit (hx : x.Closed u.Occurs) {m : Manifest} (h : lowerUnit x ps u = .ok m) :
    ∃ r, Registers x ps u r ∧ r.Sound x u.Occurs ∧
      ∀ {name : String} {o : Flo.Object}, (name, .ok o) ∈ m.entries →
        ∃ f ∈ u.functions, f.name = name ∧ ∃ returns w parameters locals entry signature,
          IsFunction ⟨x, f, returns, u.Occurs⟩ ps w parameters locals entry signature ∧
            Finishes ⟨x, f, returns, u.Occurs⟩ w r o := by
  have hS : ∀ f ∈ u.functions, ∀ ty ∈ f.types, u.Occurs ty := fun f hf ty hty =>
    CompilationUnit.occurs_function hf hty
  obtain ⟨r, hr, hsound, hmem⟩ := lowerUnit_objects hx hS h
  refine ⟨r, hr, hsound, fun {name o} hin => ?_⟩
  obtain ⟨f, hf, hname, t, o', t', ht, hrun, hgrows, rfl⟩ := hmem hin
  obtain ⟨returns, w, parameters, locals, entry, signature, hfun, rfl, rfl⟩ :=
    lowerFunction_ran hx (hS f hf) ht hrun
  exact ⟨f, hf, hname, returns, w, parameters, locals, entry, signature, hfun, hfun.inv, hgrows,
    rfl⟩

/-- A manifest has one entry for each function, in order. -/
theorem names_lowerAll {source : String} {fs : List Function} {types types' : Registry}
    {entries : List (String × Except Failure Flo.Object)}
    (h : lowerAll x ps source fs types = .ok (entries, types')) :
    entries.map Prod.fst = fs.map Function.name := by
  induction fs generalizing types entries with
  | nil =>
    simp only [lowerAll, Except.ok.injEq, Prod.mk.injEq] at h
    rw [← h.1]
    rfl
  | cons f rest ih =>
    obtain ⟨⟨r, t⟩, -, h⟩ := Except.of_bind h
    obtain ⟨⟨others, t'⟩, hrest, h⟩ := Except.of_bind h
    obtain ⟨rfl, rfl⟩ := Prod.mk.inj (Except.ok.inj h)
    rw [List.map_cons, List.map_cons, ih hrest]

theorem names_run {m : Manifest}
    (h : ({ standard with polyfills := ps } : Compiler).run u = .ok (.ok m)) :
    m.entries.map Prod.fst = u.functions.map Function.name := by
  obtain ⟨x, -, hm⟩ := run_standard h
  obtain ⟨entries, types, res, r, hall, -, hm⟩ := lowerUnit_eq_ok hm
  rw [hm, List.map_map, ← names_lowerAll hall]
  rfl

/-! ### Compiling a given unit -/

/-- The object of a function, which can be found out by compiling the unit. -/
def objectAt (c : Compiler) (u : CompilationUnit) (i : Nat) : Option Flo.Object :=
  match c.run u with
  | .ok (.ok m) => m.entries[i]?.bind fun e => e.2.toOption
  | _ => none

theorem exists_run_of_objectAt {c : Compiler} {i : Nat} {o : Flo.Object}
    (h : c.objectAt u i = some o) :
    ∃ m name, c.run u = .ok (.ok m) ∧ m.entries[i]? = some (name, .ok o) := by
  unfold objectAt at h
  split at h
  · obtain ⟨⟨name, r⟩, he, hr⟩ := Option.bind_eq_some_iff.1 h
    cases r with
    | error e => cases hr
    | ok o' => exact ⟨_, name, ‹_›, Option.some.inj hr ▸ he⟩
  · cases h

/-- The object of a function is in the manifest under its name. -/
theorem mem_of_objectAt {m : Manifest} (run : standard.run u = .ok (.ok m)) {i : Nat}
    {o : Flo.Object} (h : standard.objectAt u i = some o) {f : Function}
    (hf : u.functions[i]? = some f) : (f.name, .ok o) ∈ m.entries := by
  obtain ⟨m', name, hrun, he⟩ := exists_run_of_objectAt h
  obtain rfl := Except.ok.inj (Except.ok.inj (run.symm.trans hrun))
  have hnames : (m.entries.map Prod.fst)[i]? = (u.functions.map Function.name)[i]? := by
    rw [names_run run]
  rw [List.getElem?_map, List.getElem?_map, he, hf] at hnames
  obtain rfl := Option.some.inj hnames
  exact List.mem_of_getElem? he

end GimpleLowering.Compiler

import GimpleLowering.Proofs.Compilation
import GimpleLowering.Proofs.Layout.Closure
import GimpleLowering.Proofs.Layout.Correspondence
import GimpleLowering.Proofs.Lowering.Meaning
import GimpleLowering.Proofs.Lowering.Steadiness

/-!
# Functions are lowered independently

The functions of a unit share the types that are registered. Each of them leaves structs, array
types and layouts behind, also one that fails, and the order of first use decides every id. Still,
what becomes of a function is its own matter: other functions can be defined in another order or
have other bodies, and the function is compiled to the same object with other ids, or it fails for
the same kind of reason at the same statement.

Three things are put together. Lowering a function takes the same steps from any types. In the end
the types of both compilations are complete, so that types that are alike have entries that are
alike. And the index is only asked what names mean, which the order of definitions does not change.

The order in which the structs are completed in the end is no matter, either. Each function is
lowered as a whole here: of functions whose requests for types interleave, only the types are
described, in `Layout.Caches`.

## Main definitions

* `Compiler.SameOutcome` — the outcomes for a function in two compilations are the same

## Main results

* `Compiler.lowerUnit_completed` — for types that are completed in any order
* `Compiler.lowerUnit_independent` — for functions that are lowered with one index
* `Compiler.run_independent` — for units with the same signatures
-/

namespace GimpleLowering.Compiler

open Gimple Layout Lowering

variable {x x' : UnitIndex} {ps : Polyfills} {u u' : CompilationUnit} {m m' : Manifest}

/-! ### Outcomes -/

/-- Two outcomes for a function: objects that differ in nothing but the ids of types, or failures of
one kind at one statement. -/
inductive SameOutcome : Except Failure Flo.Object → Except Failure Flo.Object → Prop where
  | ok {o o' : Flo.Object} {ρ : Flo.Renaming} (h : o.Renamed ρ o') : SameOutcome (.ok o) (.ok o')
  | error {f f' : Failure} (h : Matching f f') : SameOutcome (.error f) (.error f')

/-- The outcome, with the types of the registry. -/
def withTypes (r : Registry) (res : Except Failure Flo.Object) : Except Failure Flo.Object :=
  res.map fun o => { o with types := r.tables }

/-- Outcomes that are parallel are the same once the types are complete. -/
theorem SameOutcome.of_parallel {r r' : Registry} (hr : r.IsComplete x) (hr' : r'.IsComplete x)
    {res res' : Except Failure Flo.Object} (h : Parallel r r' res res') :
    SameOutcome (withTypes r res) (withTypes r' res') := by
  cases h with
  | ok h =>
    obtain ⟨ρ, hρ⟩ := hr.renamed hr' h
    exact .ok hρ
  | error h => exact .error h

/-! ### Units -/

/-- The outcomes of a unit are those of its functions, with types that are complete. -/
theorem lowerUnit_outcomes (h : lowerUnit x ps u = .ok m) : ∃ r : Registry, r.IsComplete x ∧
    ∀ {i : Nat} {f : Function}, u.functions[i]? = some f → ∃ res,
      IsOutcome x ps (fun _ => True) (u.sourceFile.getD "") r f (f.name, res) ∧
        m.entries[i]? = some (f.name, withTypes r res) := by
  have hx : x.Closed fun _ => True := .univ x
  obtain ⟨entries, types, res, r, hall, hfin, hm⟩ := lowerUnit_eq_ok h
  obtain ⟨hsound, -, houtcomes⟩ := lowerAll_outcomes hx (fun _ _ _ _ => trivial) (.empty x _) hall
  have hev := finalize_keeps hx types res r hfin hsound
  refine ⟨r, ⟨hev.sound, fun s hs => finalize_settled hx hsound hfin hs⟩, fun {i f} hf => ?_⟩
  obtain ⟨hi, rfl⟩ := List.getElem?_eq_some_iff.1 hf
  have hi' : i < entries.length := houtcomes.length_eq ▸ hi
  obtain ⟨hname, t, t', ht, hrun, hgrows⟩ := houtcomes.get hi hi'
  refine ⟨_, ⟨rfl, t, t', ht, hrun, hgrows.trans hev.grows⟩, ?_⟩
  rw [hm, List.getElem?_map, List.getElem?_eq_getElem hi', Option.map_some]
  exact congrArg (fun name => some (name, _)) hname

/-- The order in which the structs are completed in the end does not matter: whatever registry the
rounds come to, the functions have the same outcomes with its types. -/
theorem lowerUnit_completed (h : lowerUnit x ps u = .ok m) : ∃ entries types,
    lowerAll x ps (u.sourceFile.getD "") u.functions .empty = .ok (entries, types) ∧
      ∀ c, Completion.Reaches x types c → c.waiting = [] →
        List.Forall₂ (fun e e' => e.1 = e'.1 ∧ SameOutcome (withTypes c.types e.2) e'.2) entries
          m.entries := by
  have hx : x.Closed fun _ => True := .univ x
  obtain ⟨entries, types, res, r, hall, hfin, hm⟩ := lowerUnit_eq_ok h
  obtain ⟨hsound, -, houtcomes⟩ := lowerAll_outcomes hx (fun _ _ _ _ => trivial) (.empty x _) hall
  have hev := finalize_keeps hx types res r hfin hsound
  have hr : r.IsComplete x := ⟨hev.sound, fun s hs => finalize_settled hx hsound hfin hs⟩
  refine ⟨entries, types, hall, fun c hc hdone => ?_⟩
  have hinv := Completion.Reaches.inv hsound hc
  have hcomplete := (hinv.isClosed hdone).toIsComplete
  rw [hm]
  refine List.forall₂_map_right_iff.2 (List.forall₂_same.2 fun e he => ⟨rfl, ?_⟩)
  obtain ⟨i, hi, rfl⟩ := List.getElem_of_mem he
  obtain ⟨-, t, t', ht, hrun, hgrows⟩ := houtcomes.get (houtcomes.length_eq ▸ hi) hi
  have hparallel := (lowerFunction_parallel ht ht hrun hrun).mono (hgrows.trans hinv.grows)
    (hgrows.trans hev.grows)
  exact .of_parallel hcomplete hr hparallel

/-- With one index, a function has the same outcome among any others. -/
theorem lowerUnit_independent (hsource : u.sourceFile = u'.sourceFile)
    (h : lowerUnit x ps u = .ok m) (h' : lowerUnit x ps u' = .ok m') {i j : Nat} {f : Function}
    (hf : u.functions[i]? = some f) (hf' : u'.functions[j]? = some f) :
    ∃ r r', m.entries[i]? = some (f.name, r) ∧ m'.entries[j]? = some (f.name, r') ∧
      SameOutcome r r' := by
  obtain ⟨r, hr, houtcome⟩ := lowerUnit_outcomes h
  obtain ⟨r', hr', houtcome'⟩ := lowerUnit_outcomes h'
  obtain ⟨res, ⟨-, t, t₁, ht, hrun, hgrows⟩, hentry⟩ := houtcome hf
  obtain ⟨res', ⟨-, t', t₁', ht', hrun', hgrows'⟩, hentry'⟩ := houtcome' hf'
  rw [← hsource] at hrun'
  have hparallel := (lowerFunction_parallel ht ht' hrun hrun').mono hgrows hgrows'
  exact ⟨_, _, hentry, hentry', .of_parallel hr hr' hparallel⟩

/-- Functions find the same meanings in indices that say the same. -/
theorem lowerUnit_congr (h : x.SameMeaning x') (ps : Polyfills) (u : CompilationUnit) :
    lowerUnit x ps u = lowerUnit x' ps u := by
  have hall : ∀ source fs types,
      lowerAll x ps source fs types = lowerAll x' ps source fs types := fun source fs => by
    induction fs with
    | nil => exact fun _ => rfl
    | cons f rest ih =>
      intro types
      simp only [lowerAll, ih, lowerFunction_congr h]
  simp only [lowerUnit, hall, finalize_congr h]

/-- **Functions are compiled independently.** If a unit is compiled, so is every other one with the
same signatures, and a function that is in both has the same outcome in both: in whatever order the
functions are defined and lowered, whatever the others do, and whether they fail. This holds as far
as the compilations have an end, which is to say that no layout waits for itself. -/
theorem run_independent (siblings : u.Siblings u')
    (run : ({ standard with polyfills := ps } : Compiler).run u = .ok (.ok m))
    {res : Except Error Manifest}
    (run' : ({ standard with polyfills := ps } : Compiler).run u' = .ok res) :
    ∃ m', res = .ok m' ∧ ∀ {i j : Nat} {f : Function}, u.functions[i]? = some f →
      u'.functions[j]? = some f → ∃ r r', m.entries[i]? = some (f.name, r) ∧
        m'.entries[j]? = some (f.name, r') ∧ SameOutcome r r' := by
  obtain ⟨x, hx, hm⟩ := run_standard run
  obtain ⟨x', hx', hmeaning⟩ := UnitIndex.ofUnit_siblings siblings hx
  rw [run_standard_eq hx', ← lowerUnit_congr hmeaning] at run'
  obtain ⟨m', hm', hres⟩ := Except.of_map run'
  exact ⟨m', hres, fun hf hf' => lowerUnit_independent siblings.sourceFile hm hm' hf hf'⟩

/-- A function that takes a pointer to a record. -/
def takingPointer (name record : String) (body : List Statement) : Function :=
  ⟨name, [⟨"p", .pointer (.record record [])⟩], none, 2, [], [⟨2, body⟩]⟩

/-- A unit with two records and functions that take pointers to them. -/
def withTwoRecords (functions : List Function) : CompilationUnit where
  sourceFile := none
  functions := functions
  globals := []
  records := [⟨"a", [⟨"value", .integer 32⟩]⟩, ⟨"b", [⟨"next", .pointer (.record "b" [])⟩]⟩]
  declarations := []

def firstThenSecond : CompilationUnit :=
  withTwoRecords [takingPointer "first" "a" [.ret none none],
    takingPointer "second" "b" [.ret none none]]

/-- The second function comes first. It fails, but not before it has taken the id that the struct of
the first one has otherwise. -/
def secondThenFirst : CompilationUnit :=
  withTwoRecords [takingPointer "second" "b" [.goto 7 none],
    takingPointer "first" "a" [.ret none none]]

theorem firstThenSecond_siblings : firstThenSecond.Siblings secondThenFirst :=
  ⟨rfl, .swap _ _ _, rfl, rfl, rfl⟩

/-- The first function is compiled in both units, to objects that differ. -/
theorem firstThenSecond_independent : ∃ m m' o o' ρ,
    standard.run firstThenSecond = .ok (.ok m) ∧ standard.run secondThenFirst = .ok (.ok m') ∧
      m.entries[0]? = some ("first", .ok o) ∧ m'.entries[1]? = some ("first", .ok o') ∧
      o ≠ o' ∧ o.Renamed ρ o' := by
  obtain ⟨hsome, hsome', hne⟩ : (standard.objectAt firstThenSecond 0).isSome ∧
      (standard.objectAt secondThenFirst 1).isSome ∧
      standard.objectAt firstThenSecond 0 ≠ standard.objectAt secondThenFirst 1 := by
    decide +kernel
  obtain ⟨o, ho⟩ := Option.isSome_iff_exists.1 hsome
  obtain ⟨o', ho'⟩ := Option.isSome_iff_exists.1 hsome'
  have hne : o ≠ o' := fun heq => hne (by rw [ho, ho', heq])
  obtain ⟨m, name, hm, he⟩ := exists_run_of_objectAt ho
  obtain ⟨m', name', hm', he'⟩ := exists_run_of_objectAt ho'
  obtain ⟨_, heq, h⟩ := run_independent firstThenSecond_siblings hm hm'
  obtain rfl := Except.ok.inj heq
  obtain ⟨r, r', hr, hr', hsame⟩ := h (i := 0) (j := 1) rfl rfl
  obtain ⟨rfl, rfl⟩ := Prod.mk.inj (Option.some.inj (he.symm.trans hr))
  obtain ⟨rfl, rfl⟩ := Prod.mk.inj (Option.some.inj (he'.symm.trans hr'))
  obtain ⟨hρ⟩ := hsame
  exact ⟨m, m', o, o', _, hm, hm', he, he', hne, hρ⟩

end GimpleLowering.Compiler

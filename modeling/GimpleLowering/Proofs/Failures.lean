import GimpleLowering.Proofs.Compilation
import GimpleLowering.Proofs.Lowering.Failures

/-!
# Failures of a unit

Whatever a unit says, compiling it has an end with an outcome for each function, except that the
layout of a record can wait for itself. An outcome that is a failure is the unit's fault and never
the compilation's: nothing that the lowering takes for granted is ever missing.

## Main results

* `Compiler.run_explains` — every failure in a manifest says what is wrong with its function
-/

namespace GimpleLowering.Compiler

open Gimple Layout Lowering

variable {x : UnitIndex} {ps : Polyfills} {u : CompilationUnit}

/-! ### Functions -/

/-- Each entry is the outcome of a function, lowered from the types of those before it. -/
theorem lowerAll_getElem? {source : String} {fs : List Function} {types types' : Registry}
    {entries : List (String × Except Failure Flo.Object)}
    (h : lowerAll x ps source fs types = .ok (entries, types')) {i : Nat} {name : String}
    {r : Except Failure Flo.Object} (hi : entries[i]? = some (name, r)) :
    ∃ f before t t', fs[i]? = some f ∧ f.name = name ∧
      lowerAll x ps source (fs.take i) types = .ok (before, t) ∧
      (lowerFunction x ps source f).runOn t = .ok (r, t') := by
  induction fs generalizing types entries i with
  | nil =>
    simp only [lowerAll, Except.ok.injEq, Prod.mk.injEq] at h
    rw [← h.1] at hi
    cases hi
  | cons f rest ih =>
    obtain ⟨⟨r', t⟩, hf, h⟩ := Except.of_bind h
    obtain ⟨⟨others, t'⟩, hrest, h⟩ := Except.of_bind h
    obtain ⟨rfl, rfl⟩ := Prod.mk.inj (Except.ok.inj h)
    cases i with
    | zero =>
      obtain ⟨rfl, rfl⟩ := Prod.mk.inj (Option.some.inj hi)
      exact ⟨f, [], types, t, rfl, rfl, rfl, hf⟩
    | succ i =>
      obtain ⟨g, before, s, s', hg, hname, hbefore, hrun⟩ := ih hrest hi
      refine ⟨g, (f.name, r') :: before, s, s', hg, hname, ?_, hrun⟩
      simp only [List.take_succ_cons, lowerAll, hf, hbefore, bind, Except.bind, pure, Except.pure]

/-- Lowering functions only breaks down where a layout waits for itself. -/
theorem lowerAll_breaks {source : String} {fs : List Function} {types : Registry} {b : Breakdown}
    (hs : types.Sound x fun _ => True) (h : lowerAll x ps source fs types = .error b) :
    SomeAwaitsItself x b := by
  induction fs generalizing types with
  | nil => cases h
  | cons f rest ih =>
    rcases Except.error_of_bind h with h | ⟨⟨r, t⟩, hf, h⟩
    · exact (lowerFunction_ends hs source).breaks h
    · have hs' := (lowerFunction_keeps (.univ x) ps source (by simp) types r t hf hs).sound
      rcases Except.error_of_bind h with h | ⟨_, -, h⟩
      · exact ih hs' h
      · cases h

theorem lowerUnit_breaks {b : Breakdown} (h : lowerUnit x ps u = .error b) :
    SomeAwaitsItself x b := by
  rcases Except.error_of_bind h with h | ⟨⟨entries, types⟩, hall, h⟩
  · exact lowerAll_breaks (.empty x _) h
  · have hs := (lowerAll_outcomes (.univ x) (by simp) (.empty x _) hall).1
    rcases Except.error_of_bind h with h | ⟨_, -, h⟩
    · exact (finalize_ends (E := fun _ => True) hs).breaks h
    · cases h

/-! ### Units -/

/-- The declarations of a unit are malformed if they cannot be indexed. -/
theorem kind_of_ofUnit {e : Error} (h : UnitIndex.ofUnit u = .error e) : e.kind = .malformed := by
  rcases Except.error_of_bind h with h | ⟨_, -, h⟩
  · obtain ⟨fs, s, h⟩ := exists_of_foldlM_error h
    unfold UnitIndex.addSignature at h
    split at h
    · split at h <;> cases h
      rfl
    · cases h
  · rcases Except.error_of_bind h with h | ⟨_, -, h⟩
    · obtain ⟨gs, g, h⟩ := exists_of_foldlM_error h
      unfold UnitIndex.addGlobal at h
      split at h <;> cases h
      rfl
    · cases h

/-- Nothing that the lowering takes for granted is ever missing, whatever the unit and the routines
are. Without a layout that waits for itself, there is an outcome; the unit is refused only if its
declarations are malformed; and every function that cannot be lowered fails with an explanation. -/
theorem run_explains (ps : Polyfills) (u : CompilationUnit) :
    (∀ b, ({ standard with polyfills := ps } : Compiler).run u = .error b →
      ∃ x record, UnitIndex.ofUnit u = .ok x ∧ x.Entangled record ∧ b = .unending record) ∧
    (∀ e, ({ standard with polyfills := ps } : Compiler).run u = .ok (.error e) →
      e.kind = .malformed) ∧
    ∀ m, ({ standard with polyfills := ps } : Compiler).run u = .ok (.ok m) →
      ∃ x, UnitIndex.ofUnit u = .ok x ∧
        ∀ i name F, m.entries[i]? = some (name, .error F) →
          ∃ f before types, u.functions[i]? = some f ∧ f.name = name ∧
            lowerAll x ps (u.sourceFile.getD "") (u.functions.take i) .empty = .ok (before, types) ∧
            F.Explains x ps (u.sourceFile.getD "") types f := by
  refine ⟨fun b hb => ?_, fun e he => ?_, fun m hm => ?_⟩
  · cases hx : UnitIndex.ofUnit u with
    | error e =>
      rw [run_standard_error hx] at hb
      cases hb
    | ok x =>
      rw [run_standard_eq hx] at hb
      cases hu : lowerUnit x ps u with
      | ok m =>
        rw [hu] at hb
        cases hb
      | error b' =>
        rw [hu] at hb
        cases hb
        obtain ⟨record, h⟩ := lowerUnit_breaks hu
        exact ⟨x, record, rfl, h⟩
  · cases hx : UnitIndex.ofUnit u with
    | error e' =>
      rw [run_standard_error hx] at he
      obtain rfl := Except.error.inj (Except.ok.inj he)
      exact kind_of_ofUnit hx
    | ok x =>
      rw [run_standard_eq hx] at he
      obtain ⟨m, -, hm⟩ := Except.of_map he
      cases hm
  · obtain ⟨x, hx, hu⟩ := run_standard hm
    obtain ⟨entries, types, res, r, hall, -, hm⟩ := lowerUnit_eq_ok hu
    refine ⟨x, hx, fun i name F hi => ?_⟩
    rw [hm, List.getElem?_map, Option.map_eq_some_iff] at hi
    obtain ⟨⟨name', r'⟩, hi, heq⟩ := hi
    obtain ⟨rfl, hr'⟩ := Prod.mk.inj heq
    have hr' : r' = .error F := by
      cases r' with
      | ok o => cases hr'
      | error F' => rw [Except.error.inj hr']
    obtain ⟨f, before, t, t', hf, hname, hbefore, hrun⟩ := lowerAll_getElem? hall (hr' ▸ hi)
    have ht := (lowerAll_outcomes (.univ x) (by simp) (.empty x _) hbefore).1
    exact ⟨f, before, t, hf, hname, hbefore, (lowerFunction_ends ht _).fails hrun⟩

/-- The failure of a function, which can be found out by compiling the unit. -/
def failureAt (c : Compiler) (u : CompilationUnit) (i : Nat) : Option Failure :=
  match c.run u with
  | .ok (.ok m) => m.entries[i]?.bind fun e => match e.2 with
    | .error F => some F
    | .ok _ => none
  | _ => none

theorem exists_run_of_failureAt {c : Compiler} {i : Nat} {F : Failure}
    (h : c.failureAt u i = some F) :
    ∃ m name, c.run u = .ok (.ok m) ∧ m.entries[i]? = some (name, .error F) := by
  unfold failureAt at h
  split at h
  · obtain ⟨⟨name, r⟩, he, hr⟩ := Option.bind_eq_some_iff.1 h
    cases r with
    | ok o => cases hr
    | error F' =>
      obtain rfl := Option.some.inj hr
      exact ⟨_, name, ‹_›, he⟩
  · cases h

/-- The first function declares a name twice. The second one compares in the block that follows
its entry. -/
def comparing : CompilationUnit where
  sourceFile := some "sign.c"
  functions := [
    ⟨"twice", [⟨"x", .integer 32⟩], none, 2, [⟨"x", .real 64⟩], [⟨2, []⟩]⟩,
    ⟨"sign", [⟨"x", .integer 32⟩], none, 2, [⟨"y", .integer 32⟩],
      [⟨2, [.goto 3 (some 4)]⟩,
        ⟨3, [.assign .copy (.named (.integer 32) "y") [.named (.integer 32) "x"] (some 5),
          .conditional .gt [.named (.integer 32) "y", .integer (.integer 32) 0] 1 2 (some 6)]⟩]⟩]
  globals := []
  records := []
  declarations := []

/-- Without any routines, the comparison is at fault, and control can get there. The name that is
declared twice is no statement's fault. -/
theorem comparing_explains : ∃ m F G,
    ({ standard with polyfills := .empty } : Compiler).run comparing = .ok (.ok m) ∧
      m.entries[0]? = some ("twice", .error F) ∧ F.location = none ∧
      m.entries[1]? = some ("sign", .error G) ∧ G.location = some ⟨3, 1, some 6⟩ ∧
      ∃ x types f g, F.Explains x .empty "sign.c" .empty f ∧ G.Explains x .empty "sign.c" types g ∧
        comparing.functions = [f, g] := by
  have hfirst : (({ standard with polyfills := .empty } : Compiler).failureAt comparing 0).map
      Failure.location = some none := by decide +kernel
  have hsecond : (({ standard with polyfills := .empty } : Compiler).failureAt comparing 1).map
      Failure.location = some (some ⟨3, 1, some 6⟩) := by decide +kernel
  obtain ⟨F, hF, hnone⟩ := Option.map_eq_some_iff.1 hfirst
  obtain ⟨G, hG, hsome⟩ := Option.map_eq_some_iff.1 hsecond
  obtain ⟨m, name, hrun, hentry⟩ := exists_run_of_failureAt hF
  obtain ⟨m', name', hrun', hentry'⟩ := exists_run_of_failureAt hG
  obtain rfl := Except.ok.inj (Except.ok.inj (hrun.symm.trans hrun'))
  obtain ⟨x, -, hexplains⟩ := (run_explains .empty comparing).2.2 m hrun
  obtain ⟨f, before, types, hf, rfl, hbefore, h⟩ := hexplains 0 name F hentry
  obtain ⟨g, before', types', hg, rfl, -, h'⟩ := hexplains 1 name' G hentry'
  obtain rfl := Option.some.inj hf
  obtain rfl := Option.some.inj hg
  obtain ⟨-, rfl⟩ := Prod.mk.inj (Except.ok.inj hbefore)
  exact ⟨m, F, G, hrun, hentry, hnone, hentry', hsome, x, types', _, _, h, h', rfl⟩

end GimpleLowering.Compiler

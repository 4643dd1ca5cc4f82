import GimpleLowering.Proofs.Lowering.Contexts
import GimpleLowering.Proofs.WellTyped

/-!
# Types that are joined

An assignment joins two variables, and so do an argument and its parameter, a result and what takes
it, and a field and what is loaded from it or stored to it. Whether they can be joined is decided
by the types of the source, which are compared up to forward references at any depth. What is joined
are variables with runtime types, and those are told apart by the definitions of their records.

What was handed out for a type at one moment is compared with what is handed out for another type at
a later one. The answer does not depend on what happens before or between: the two runtime types are
equal if and only if the types are, once the forward references at their cores are completed. This
is not what is checked: a forward reference in a field is looked through by the check, but it is a
part of the definition by which the struct is found. So there are assignments between variables of
different structs. They need a record that is named with and without its definition inside of
another one; wherever the types of a function are consistent, everything that is joined in its
object has one type.

## Main results

* `Lowering.valueType_eq_iff` — when two types have the same runtime type, and what is joined then
* `Compiler.joiningLists_joins` — variables of different structs that are joined
-/

namespace GimpleLowering

open Gimple Layout Relation

namespace Lowering

/-- **Runtime types are told apart by completed definitions, and so is what is joined.** Whenever two
types are represented for a unit, whatever happened before and happens between, they have the same
runtime type if and only if they have the same expansion, and then they agree. In the object of a
function that is lowered at any moment, with the tables of any later one, everything that is
assigned, passed, returned, loaded or stored has the type of the place that it goes to, provided
that types that occur in the function or in the index have the same expansion if they agree. -/
theorem valueType_eq_iff {x : UnitIndex} :
    (∀ {a b : Ty} {r₀ r₁ r₂ r₃ : Registry} {typ typ' : Flo.Ty},
      ReflTransGen (Uses x) .empty r₀ → (Layout.valueType x a).Ran r₀ typ r₁ →
      ReflTransGen (Uses x) r₁ r₂ → (Layout.valueType x b).Ran r₂ typ' r₃ →
        (typ = typ' ↔ x.expand a = x.expand b) ∧ (typ = typ' → a.agrees b)) ∧
    ∀ {ps : Polyfills} {source : String} {f : Function} {types types' r : Registry}
      {o : Flo.Object}, ReflTransGen (Uses x) .empty types →
      (lowerFunction x ps source f).Ran types o types' → ReflTransGen (Uses x) types' r →
      (∀ a b, f.Occurs x a → f.Occurs x b → a.agrees b → x.expand a = x.expand b) →
        ∃ image signature,
          Flo.Object.IsTyped { o with types := r.tables } x r ps f image signature := by
  have hx : x.Closed fun _ => True := .univ x
  refine ⟨fun {a b r₀ r₁ r₂ r₃ typ typ'} reached first between second => ?_,
    fun {ps source f types types' r o} reached run later consistent => ?_⟩
  · have h₀ := evolves_of_uses reached (.empty x _)
    have h₁ := (Layout.valueType_keeps hx trivial).ran first h₀.sound
    have h₂ := evolves_of_uses between h₁.sound
    have ha : HasValueType x r₁ a typ := Layout.valueType_ran hx trivial h₀.sound first
    have hb : HasValueType x r₃ b typ' := Layout.valueType_ran hx trivial h₂.sound second
    have h₃ := (Layout.valueType_keeps hx trivial).ran second h₂.sound
    have hiff := (ha.mono (h₂.grows.trans h₃.grows)).eq_iff hb
    exact ⟨hiff, fun heq => UnitIndex.agrees_of_expand_eq (hiff.1 heq)⟩
  · have hsound := (evolves_of_uses reached (.empty x _)).sound
    have hev := (lowerFunction_keeps hx ps source (by simp)).ran run hsound
    have hconsistent : x.Consistent (f.Occurs x) :=
      { f.closed_occurs x with expand_eq := fun {a b} => consistent a b }
    exact lowerFunction_isTyped hconsistent (fun _ => Function.occurs_of_mem) hsound run
      (evolves_of_uses later hev.sound).grows

/-- A unit with one record. -/
def pairs : UnitIndex := { UnitIndex.empty with records := [⟨"pair", [⟨"x", .integer 32⟩]⟩] }

/-- A function that copies a pair, which is named by a forward reference and spelled out. -/
def copyingPair : Function :=
  let spelled : Ty := .record "pair" [⟨"x", .integer 32⟩]
  ⟨"copy", [⟨"a", .record "pair" []⟩, ⟨"b", spelled⟩], none, 2, [],
    [⟨2, [.assign .copy (.named (.record "pair" []) "a") [.named spelled "b"] none,
      .ret none none]⟩]⟩

theorem copyingPair_consistent (a b : Ty) (ha : copyingPair.Occurs pairs a)
    (hb : copyingPair.Occurs pairs b) (hab : a.agrees b) : pairs.expand a = pairs.expand b := by
  have hmem : ∀ ty, copyingPair.Occurs pairs ty →
      ty ∈ [.integer 32, .record "pair" [], .record "pair" [⟨"x", .integer 32⟩]] :=
    fun ty hty => hty.mem (by decide) (by decide)
  have hexpand : ∀ a ∈ [.integer 32, .record "pair" [], .record "pair" [⟨"x", .integer 32⟩]],
      ∀ b ∈ [.integer 32, .record "pair" [], .record "pair" [⟨"x", .integer 32⟩]], a.agrees b →
        pairs.expand a = pairs.expand b := by
    decide
  exact hexpand a (hmem a ha) b (hmem b hb) hab

/-- A forward reference has the runtime type of its definition, and both are joined. -/
theorem valueType_pairs_eq :
    (∃ r₁ r₂ typ typ', (Layout.valueType pairs (.record "pair" [])).Ran .empty typ r₁ ∧
      (Layout.valueType pairs (.record "pair" [⟨"x", .integer 32⟩])).Ran r₁ typ' r₂ ∧ typ = typ') ∧
    ∃ o types, (lowerFunction pairs .empty "" copyingPair).Ran .empty o types ∧
      ∃ image signature, Flo.Object.IsTyped { o with types := types.tables } pairs types .empty
        copyingPair image signature := by
  constructor
  · refine ⟨_, _, _, _, rfl, rfl, ?_⟩
    obtain ⟨hiff, -⟩ := valueType_eq_iff (x := pairs)
    exact (hiff (a := .record "pair" []) (b := .record "pair" [⟨"x", .integer 32⟩]) .refl rfl .refl
      rfl).1.2 rfl
  · obtain ⟨o, types, run⟩ : ∃ o types,
        (lowerFunction pairs .empty "" copyingPair).Ran .empty o types :=
      Build.exists_ran_of_endsWell (by decide +kernel)
    exact ⟨o, types, run, valueType_eq_iff.2 .refl run .refl copyingPair_consistent⟩

end Lowering

namespace Compiler

open Lowering

/-- A list of nodes, named by a forward reference. -/
def opaqueList : Ty := .record "list" [⟨"next", .pointer (.record "node" [])⟩]

/-- The list with the nodes spelled out. -/
def spelledList : Ty := .record "list" [⟨"next", .pointer (.record "node" [⟨"value", .integer 32⟩])⟩]

/-- A unit that defines the nodes and assigns one list to the other. -/
def joiningLists : CompilationUnit where
  sourceFile := none
  functions := [⟨"join", [⟨"a", opaqueList⟩, ⟨"b", spelledList⟩], none, 2, [],
    [⟨2, [.assign .copy (.named opaqueList "a") [.named spelledList "b"] none, .ret none none]⟩]⟩]
  globals := []
  records := [⟨"node", [⟨"value", .integer 32⟩]⟩]
  declarations := []

/-- The types of the lists agree, so they are assigned, but the variables have different structs. -/
theorem joiningLists_joins : opaqueList.agrees spelledList ∧ ∃ m o note,
    standard.run joiningLists = .ok (.ok m) ∧ ("join", .ok o) ∈ m.entries ∧
      o.statements.get? 1 = some (.assign 1 2 note) ∧
      (o.vars.get? 1).map Flo.Variable.typ = some (.struct 1) ∧
      (o.vars.get? 2).map Flo.Variable.typ = some (.struct 3) := by
  refine ⟨by decide, ?_⟩
  have hjoin : (standard.objectAt joiningLists 0).map (fun o => (o.statements.get? 1,
      (o.vars.get? 1).map Flo.Variable.typ, (o.vars.get? 2).map Flo.Variable.typ)) =
        some (some (.assign 1 2 ⟨[], none⟩), some (.struct 1), some (.struct 3)) := by
    decide +kernel
  obtain ⟨o, ho, heq⟩ := Option.map_eq_some_iff.1 hjoin
  obtain ⟨hassign, hvars⟩ := Prod.mk.inj heq
  obtain ⟨hfirst, hsecond⟩ := Prod.mk.inj hvars
  obtain ⟨m, name, hrun, -⟩ := exists_run_of_objectAt ho
  exact ⟨m, o, _, hrun, mem_of_objectAt hrun ho rfl, hassign, hfirst, hsecond⟩

end Compiler

end GimpleLowering

import GimpleLowering.Proofs.Layout.Termination
import GimpleLowering.Proofs.Lowering.Contexts

/-!
# Records that refer to themselves

A record refers to itself through pointers, as a list does, and still has a layout: a pointer or
reference to a record does not need the layout of what it points to. So whatever was registered
before, every computation on types has an end, for arbitrary circles of records, as long as no
record is entangled.

An entangled record passes the check that no value contains itself, and its layout waits for itself
all the same: a pointer to an array needs the members of the array. Such a layout has no end.

## Main definitions

* `Lowering.HaltsUnlessEntangled` — only entangled records keep a computation from its end

## Main results

* `Lowering.layouts_halt` — what is represented, laid out and completed has an end
* `Lowering.represent_grids` — a record that passes the check and whose layout has no end
-/

namespace GimpleLowering.Lowering

open Gimple Layout Relation

variable {x : UnitIndex} {α : Type}

/-- The computation needs the layouts of the records in `R`. It only has no end if one of them is
entangled, and if it ends well then none of them is. -/
structure HaltsUnlessEntangled (x : UnitIndex) (m : LayoutM α) (types : Registry)
    (R : Ty → Prop) : Prop where
  unending : ∀ b, m.runOn types = .error b →
    ∃ record, R record ∧ x.Entangled record ∧ b = .unending record
  ended : ∀ a types', m.Ran types a types' → ∀ record, R record → ¬ x.Entangled record

/-- Whatever was registered before, representing a type, reading the fields of a struct and
completing all types have an end, unless the layout of a record needs itself through a pointer to an
array. -/
theorem layouts_halt {types : Registry} (reached : ReflTransGen (Uses x) .empty types) :
    (∀ ty, HaltsUnlessEntangled x (represent x ty) types fun record =>
      ∃ root, ty.neededRecord? = some root ∧ ReflTransGen x.Needs (x.complete root) record) ∧
    (∀ id s, types.struct? id = some s →
      HaltsUnlessEntangled x (slotsOf x id) types (ReflTransGen x.Needs s.record)) ∧
    ∀ b, (finalize x).runOn types = .error b →
      ∃ record, x.Entangled record ∧ b = .unending record := by
  have hx : x.Closed fun _ => True := .univ x
  have hr : types.Sound x fun _ => True := (evolves_of_uses reached (.empty x _)).sound
  refine ⟨fun ty => ⟨fun b hb => ?_, fun rep types' hran record ⟨root, hroot, hneeds⟩ => ?_⟩,
    fun id s hs => ⟨fun b hb => ?_, fun slots types' hran record hneeds => ?_⟩,
    fun b hb => (finalize_ends (E := fun _ => True) hr).breaks hb⟩
  · obtain ⟨root, hroot, record, hneeds, h⟩ := (represent_ends hr).breaks hb
    exact ⟨record, ⟨root, hroot, hneeds⟩, h⟩
  · have hjudged := (represent_ran hx trivial hr hran).judged
      ((represent_keeps hx trivial).ran hran hr).sound
    exact (hjudged.grounded rfl hroot).not_entangled hneeds
  · exact (slotsOf_ends hr hs (.nil x types _)).breaks hb
  · obtain ⟨s', hs', hslots⟩ := (slotsOf_supplies hx).knows hr hran hs
    have he := (slotsOf_keeps hx id).ran hran hr
    obtain ⟨t, ht, hrecord⟩ := he.grows.struct? hs
    obtain rfl := Option.some.inj (hs'.symm.trans ht)
    have hgrounded := (he.sound.laidOut hs' hslots).judged.grounded rfl
    exact (hrecord ▸ hgrounded).not_entangled hneeds

/-- Trees with their leaves in arrays: nodes refer to each other, and leaves to their nodes. -/
def trees : UnitIndex := { UnitIndex.empty with records := [
  ⟨"node", [⟨"next", .pointer (.record "node" [])⟩,
    ⟨"leaves", .pointer (.array (.record "leaf" []) 4)⟩]⟩,
  ⟨"leaf", [⟨"parent", .reference (.record "node" [])⟩, ⟨"weight", .real 64⟩]⟩] }

/-- A leaf needs no other layout, and a node needs those of its leaves alone. -/
theorem trees_needs {record : Ty} :
    ¬ trees.Needs (trees.complete (.record "leaf" [])) record ∧
      (trees.Needs (trees.complete (.record "node" [])) record →
        record = trees.complete (.record "leaf" [])) := by
  have hleaf : ∀ f ∈ (trees.complete (.record "leaf" [])).fields, f.ty.neededRecord? = none := by
    decide
  have hnode : ∀ f ∈ (trees.complete (.record "node" [])).fields,
      ∀ root ∈ f.ty.neededRecord?, root = .record "leaf" [] := by
    decide
  refine ⟨fun ⟨f, hf, root, hroot, _⟩ => ?_, fun ⟨f, hf, root, hroot, h⟩ => ?_⟩
  · rw [hleaf f hf] at hroot
    cases hroot
  · rw [← h, hnode f hf root hroot]

/-- Trees can be represented, although every record in them leads back to itself. -/
theorem trees_halt : ReflTransGen (Uses trees) .empty .empty ∧
    ∃ p, (represent trees (.record "node" [])).runOn .empty = .ok p := by
  refine ⟨.refl, ?_⟩
  cases h : (represent trees (.record "node" [])).runOn .empty with
  | ok p => exact ⟨p, rfl⟩
  | error b =>
    obtain ⟨record, ⟨root, hroot, hneeds⟩, hentangled, -⟩ :=
      ((layouts_halt .refl).1 (.record "node" [])).unending b h
    obtain rfl := Option.some.inj hroot
    -- From a leaf there is no way on, and from a node the only way is to a leaf.
    have hstuck : ∀ {b}, ReflTransGen trees.Needs (trees.complete (.record "leaf" [])) b →
        b = trees.complete (.record "leaf" []) := by
      intro b hb
      rcases ReflTransGen.cases_head hb with rfl | ⟨c, hc, -⟩
      · rfl
      · exact absurd hc trees_needs.1
    obtain ⟨c, hc, hback⟩ := TransGen.head'_iff.1 hentangled.needs_self
    rcases ReflTransGen.cases_head hneeds with rfl | ⟨d, hd, hneeds⟩
    · rw [trees_needs.2 hc] at hback
      exact absurd (hstuck hback) (by decide)
    · rw [trees_needs.2 hd] at hneeds
      rw [hstuck hneeds] at hc
      exact absurd hc trees_needs.1

/-- Rows that refer to arrays of rows. -/
def grids : UnitIndex := { UnitIndex.empty with records := [
  ⟨"row", [⟨"rows", .pointer (.array (.record "row" []) 2)⟩]⟩] }

/-- A record passes the check that it does not contain itself, and its layout has no end. -/
theorem represent_grids : grids.checkContained (.record "row" []) = .ok () ∧
    (represent grids (.record "row" [])).runOn .empty =
      .error (.unending (grids.complete (.record "row" []))) := by
  decide

end GimpleLowering.Lowering

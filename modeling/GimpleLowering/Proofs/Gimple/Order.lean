import GimpleLowering.Gimple.Unit

/-!
# The order of blocks

The blocks of a function are visited beginning with the entry, those that are branched to first
first. A label is queued when it is branched to for the first time, and the label of the exit, which
has no block, never is.

## Main definitions

* `Gimple.enqueue` — labels that were branched to, and some more of them
* `Gimple.Function.visits` — the labels of a function in the order in which they are visited
-/

namespace GimpleLowering.Gimple

/-- The labels that were branched to, with those of some more labels that were not. -/
def enqueue (seen labels : List Nat) : List Nat :=
  labels.foldl (fun seen label =>
    if label = exitIndex ∨ label ∈ seen then seen else seen ++ [label]) seen

@[simp] theorem enqueue_nil (seen : List Nat) : enqueue seen [] = seen := rfl

theorem enqueue_append (seen labels labels' : List Nat) :
    enqueue seen (labels ++ labels') = enqueue (enqueue seen labels) labels' :=
  List.foldl_append

theorem enqueue_of_mem {seen : List Nat} {label : Nat} (h : label ∈ seen) :
    enqueue seen [label] = seen :=
  if_pos (.inr h)

theorem enqueue_of_not_mem {seen : List Nat} {label : Nat} (hl : label ≠ exitIndex)
    (h : label ∉ seen) : enqueue seen [label] = seen ++ [label] :=
  if_neg (not_or.2 ⟨hl, h⟩)

/-- The labels that are seen when those from a position on have been visited one after the other,
as far as the fuel reaches. -/
def Function.visitsFrom (f : Function) : (fuel position : Nat) → (seen : List Nat) → List Nat
  | 0, _, seen => seen
  | fuel + 1, position, seen =>
    match seen[position]? with
    | none => seen
    | some label => f.visitsFrom fuel (position + 1) (enqueue seen (f.successors label))

/-- The labels of the function in the order in which they are visited. There are no more of them
than blocks. -/
def Function.visits (f : Function) : List Nat :=
  f.visitsFrom f.blocks.length 0 [f.entryBlock]

end GimpleLowering.Gimple

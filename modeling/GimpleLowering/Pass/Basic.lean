import GimpleLowering.Error
import GimpleLowering.Pass.Results

/-!
# Passes

A pass analyses a unit, and its result is kept under the key of the pass; or it changes the unit.
Passes name the passes whose results they read and those whose results they make stale.

`Pass.order` arranges passes so that each one comes after those it depends on, by taking the first
one that is ready, again and again. `Pass.run` executes them in a given order. Invalidation plays
no part in the order, so a result can be stale by the time that it is needed; `Pass.run` finds out.

## Main definitions

* `Pass` — a pass over states of type `σ` with results of type `ρ` under keys of type `κ`
* `Pass.order`, `Pass.run`
-/

namespace GimpleLowering

/-- A pass, which turns a state and the live results into a new state and its own result. -/
structure Pass (κ σ ρ : Type) where
  key : κ
  name : String
  /-- The passes whose results are read. -/
  depends : List κ
  /-- The passes whose results are stale afterwards. -/
  invalidates : List κ
  execute : σ → Pass.Results κ ρ → Except Error (σ × ρ)

namespace Pass

variable {κ σ ρ : Type} [DecidableEq κ]

/-! ### The order of passes -/

/-- Everything that the pass depends on has been placed. -/
def isReady (placed : List κ) (p : Pass κ σ ρ) : Bool := p.depends.all fun d => d ∈ placed

/-- The first ready pass, and the others in their order. -/
def takeReady (placed : List κ) :
    List (Pass κ σ ρ) → Option (Pass κ σ ρ × List (Pass κ σ ρ))
  | [] => none
  | p :: rest =>
    if p.isReady placed then some (p, rest)
    else (takeReady placed rest).map fun (q, others) => (q, p :: others)

/-- Places one pass after the other. The fuel is the number of pending passes; every step places
one of them, so it does not run out. -/
def place (placed : List κ) : (fuel : Nat) → (pending : List (Pass κ σ ρ)) →
    Except Error (List (Pass κ σ ρ))
  | 0, _ => .ok []
  | fuel + 1, pending =>
    if pending.isEmpty then .ok []
    else match takeReady placed pending with
      | none => .error (.passOrder (.circular (pending.map Pass.name)))
      | some (p, others) => do
        return p :: (← place (p.key :: placed) fuel others)

/-- The passes in an order in which each one comes after those it depends on. -/
def order (passes : List (Pass κ σ ρ)) : Except Error (List (Pass κ σ ρ)) :=
  let keys := passes.map Pass.key
  if ¬ keys.Nodup then .error (.passOrder .providedTwice)
  else match passes.find? fun p => p.depends.any fun d => d ∉ keys with
    | some p => .error (.passOrder (.dependencyMissing p.name))
    | none => place [] passes.length passes

/-! ### Execution -/

/-- Executes one pass on a state and the live results. What the pass invalidates is cleared before
its own result is stored, so a pass that invalidates itself keeps its result. -/
def step [ToString κ] (p : Pass κ σ ρ) (state : σ) (live : Results κ ρ) :
    Except Error (σ × Results κ ρ) :=
  match p.depends.find? fun d => ! live.contains d with
  | some missing => .error (.missingPassData (toString missing ++ " for " ++ p.name))
  | none => do
    let (state, result) ← p.execute state live
    return (state, (p.invalidates.foldl Results.clear live).put p.key result)

/-- Executes passes one after the other. -/
def runFrom [ToString κ] (state : σ) (live : Results κ ρ) :
    List (Pass κ σ ρ) → Except Error (σ × Results κ ρ)
  | [] => .ok (state, live)
  | p :: rest => do
    let (state, live) ← p.step state live
    runFrom state live rest

/-- Executes passes one after the other, with no results to begin with. -/
def run [ToString κ] (passes : List (Pass κ σ ρ)) (state : σ) : Except Error (σ × Results κ ρ) :=
  runFrom state .empty passes

/-! ### Interface lemmas -/

/-- A pass that is taken was pending, and all others stay. -/
theorem perm_of_takeReady {placed : List κ} {pending others : List (Pass κ σ ρ)}
    {p : Pass κ σ ρ} (h : takeReady placed pending = some (p, others)) :
    (p :: others).Perm pending := by
  induction pending generalizing others with
  | nil => simp [takeReady] at h
  | cons q rest ih =>
    unfold takeReady at h
    split at h
    · obtain ⟨rfl, rfl⟩ := Prod.mk.inj (Option.some.inj h)
      exact List.Perm.refl _
    · obtain ⟨⟨r, os⟩, hr, he⟩ := Option.map_eq_some_iff.1 h
      obtain ⟨rfl, rfl⟩ := Prod.mk.inj he
      exact (List.Perm.swap q r os).trans ((ih hr).cons q)

/-- A pass that is taken is ready. -/
theorem isReady_of_takeReady {placed : List κ} {pending others : List (Pass κ σ ρ)}
    {p : Pass κ σ ρ} (h : takeReady placed pending = some (p, others)) :
    p.isReady placed = true := by
  induction pending generalizing others with
  | nil => simp [takeReady] at h
  | cons q rest ih =>
    unfold takeReady at h
    split at h
    · rename_i hq
      obtain ⟨rfl, -⟩ := Prod.mk.inj (Option.some.inj h)
      exact hq
    · obtain ⟨⟨r, os⟩, hr, he⟩ := Option.map_eq_some_iff.1 h
      obtain ⟨rfl, -⟩ := Prod.mk.inj he
      exact ih hr

end Pass

end GimpleLowering

import GimpleLowering.Gimple.Ty

/-!
# Computations on shared state

Compiling a function changes state that other functions share, and it can fail. What was
registered before a failure stays registered. Besides failing, a computation can break down, and
then there is no result at all. It breaks down if it waits for itself, as when the layout of a
record needs the finished layout of the same record, and if it needs an entry of a table or a list
that is not there.

## Main definitions

* `Build σ ε` — computations on a state of type `σ` that fail with an `ε`
* `Build.present` — an entry that has to be there
* `Build.zoom` — a computation on a part of the state
* `Build.runOn` — the outcome of a computation
-/

namespace GimpleLowering

/-- Why a computation has no outcome. -/
inductive Breakdown where
  /-- It has no end: the layout of a record waits for itself. -/
  | unending (record : Gimple.Ty)
  /-- It needs the entry with an index that there is none for. -/
  | outOfRange (index : Nat)
  deriving DecidableEq

/-- The words for a breakdown. -/
def Breakdown.message : Breakdown → String
  | unending record => "the layout of " ++ record.text ++ " needs itself"
  | outOfRange index => "there is no entry " ++ toString index

/-- Computations on a state that can fail, and whose state survives a failure. -/
abbrev Build (σ ε α : Type) : Type := ExceptT ε (StateT σ (Except Breakdown)) α

namespace Build

variable {σ τ ε α β : Type}

/-- The outcome of a computation: a result or a failure, and the state that it leaves. -/
def runOn (m : Build σ ε α) (s : σ) : Except Breakdown (Except ε α × σ) := m.run.run s

/-- A computation from its outcomes. -/
def ofRun (f : σ → Except Breakdown (Except ε α × σ)) : Build σ ε α := ExceptT.mk f

/-- The layout of a record waits for itself. -/
def unending (record : Gimple.Ty) : Build σ ε α := ofRun fun _ => .error (.unending record)

/-- A step that cannot fail. -/
def step (f : σ → α × σ) : Build σ ε α := ofRun fun s => .ok (.ok (f s).1, (f s).2)

/-- Lets an outcome decide. -/
def ofExcept (r : Except ε α) : Build σ ε α := ofRun fun s => .ok (r, s)

/-- The entry with an index, which has to be there. -/
def present (index : Nat) : Option α → Build σ ε α
  | some a => pure a
  | none => ofRun fun _ => .error (.outOfRange index)

/-- A computation on the part of the state that `get` reads and `set` replaces. -/
def zoom (get : σ → τ) (set : σ → τ → σ) (m : Build τ ε α) : Build σ ε α :=
  ofRun fun s => do
    let (r, t) ← m.runOn (get s)
    return (r, set s t)

/-- Describes failures in other terms. -/
def mapError {δ : Type} (f : ε → δ) (m : Build σ ε α) : Build σ δ α :=
  ofRun fun s => do
    let (r, s) ← m.runOn s
    return (r.mapError f, s)

/-- Carries on after a failure, which is passed on as a result. -/
def attempt {δ : Type} (m : Build σ ε α) : Build σ δ (Except ε α) :=
  ofRun fun s => do
    let (r, s) ← m.runOn s
    return (.ok r, s)

/-! ### Interface lemmas -/

@[simp] theorem runOn_ofRun (f : σ → Except Breakdown (Except ε α × σ)) (s : σ) :
    (ofRun f).runOn s = f s := rfl

@[simp] theorem runOn_pure (a : α) (s : σ) : (pure a : Build σ ε α).runOn s = .ok (.ok a, s) := rfl

@[simp] theorem runOn_throw (e : ε) (s : σ) :
    (throw e : Build σ ε α).runOn s = .ok (.error e, s) := rfl

@[simp] theorem runOn_step (f : σ → α × σ) (s : σ) :
    (step f : Build σ ε α).runOn s = .ok (.ok (f s).1, (f s).2) := rfl

@[simp] theorem runOn_ofExcept (r : Except ε α) (s : σ) :
    (ofExcept r : Build σ ε α).runOn s = .ok (r, s) := rfl

@[simp] theorem runOn_unending (record : Gimple.Ty) (s : σ) :
    (unending record : Build σ ε α).runOn s = .error (.unending record) := rfl

@[simp] theorem present_some (index : Nat) (a : α) :
    (present index (some a) : Build σ ε α) = pure a := rfl

@[simp] theorem runOn_present_none (index : Nat) (s : σ) :
    (present index none : Build σ ε α).runOn s = .error (.outOfRange index) := rfl

/-- A sequence stops at the first failure, with the state as it is then. -/
theorem runOn_bind (m : Build σ ε α) (f : α → Build σ ε β) (s : σ) :
    (m >>= f).runOn s = match m.runOn s with
      | .ok (.ok a, s) => (f a).runOn s
      | .ok (.error e, s) => .ok (.error e, s)
      | .error u => .error u := by
  unfold runOn
  rw [ExceptT.run_bind, StateT.run_bind]
  cases m.run.run s with
  | error u => rfl
  | ok r =>
    obtain ⟨r, s⟩ := r
    cases r <;> rfl

end Build

end GimpleLowering
